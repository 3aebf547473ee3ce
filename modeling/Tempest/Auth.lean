import Tempest.Engine

/-! Authentication, `internal/auth`, with the two places that apply it: the HTTP
middleware `RequireAuth` and the gRPC interceptor. A role is any text that a
token carries; only the three known ones allow anything. -/
namespace Tempest.Auth
open Interaction

abbrev Role := String

def roleReader : Role := "reader"
def roleOperator : Role := "operator"
def roleAdmin : Role := "admin"

inductive Action
  | read | submit | cancel | publish | delete | manageWebhooks | manageTokens
  deriving DecidableEq

def allowed (r : Role) : Option (List Action) :=
  if r = roleReader then some [.read]
  else if r = roleOperator then some [.read,.submit,.cancel,.publish]
  else if r = roleAdmin then
    some [.read,.submit,.cancel,.publish,.delete,.manageWebhooks,.manageTokens]
  else none

def Role.allow (r : Role) (a : Action) : Bool :=
  match allowed r with
  | none => false
  | some actions => actions.contains a

structure Principal where
  id : String
  ns : Namespace
  role : Role
  deriving DecidableEq

def principalOf (tok : APIToken) : Principal := ⟨tok.id,tok.ns,tok.role⟩

def resolve (tokenHash : String) : M (Except Classified Principal) :=
  .call (.lookupTokenByHash tokenHash) (fun
    | .error _ => .done (.error (.of .unauthenticated))
    | .ok tok => .done (.ok (principalOf tok)))

def bearerToken (authorization : String) : Option String :=
  if authorization = "" then none
  else if Text.hasPrefix "Bearer " authorization then some (Text.trimPrefix "Bearer " authorization)
  else none

def requireAuth {α : Type} (env : Env) (action : Action) (authorization : String) (refuse : Classified → α)
    (next : Principal → M α) : M α :=
  match bearerToken authorization with
  | none => .done (refuse (.of .unauthenticated))
  | some token =>
    resolve (env.hashToken token) >>= fun
      | .error e => .done (refuse e)
      | .ok principal =>
        if Role.allow principal.role action then next principal else .done (refuse (.of .permissionDenied))

inductive Code
  | invalidArgument | notFound | alreadyExists | permissionDenied | unauthenticated | internal
  deriving DecidableEq

structure Status where
  code : Code
  message : String
  deriving DecidableEq

/-- `metadata` is the incoming metadata of the call: the values of its
`authorization` entry, or nothing if the call has no metadata at all. -/
def resolvePrincipal (env : Env) (metadata : Option (List String)) : M (Except Status Principal) :=
  match metadata with
  | none => .done (.error ⟨.unauthenticated,"missing metadata"⟩)
  | some [] => .done (.error ⟨.unauthenticated,"missing authorization"⟩)
  | some (value :: _) =>
    resolve (env.hashToken (Text.trimPrefix "Bearer " value)) >>= fun
      | .error _ => .done (.error ⟨.unauthenticated,"invalid token"⟩)
      | .ok principal => .done (.ok principal)

def unaryInterceptor {α : Type} (env : Env) (metadata : Option (List String))
    (handler : Principal → M (Except Status α)) : M (Except Status α) :=
  resolvePrincipal env metadata >>= fun
    | .error status => .done (.error status)
    | .ok principal => handler principal

section Laws

variable {α : Type} (env : Env) (w : World) (secret : String)

lemma requireAuth_run (action : Action) (authorization : String) (refuse : Classified → α)
    (next : Principal → M α) (carries : bearerToken authorization = some secret) :
    (requireAuth env action authorization refuse next).run (exec env) w =
      match w.store.tokenHash.lookup (env.hashToken secret) with
      | none => (refuse (.of .unauthenticated),w.advance)
      | some tok =>
        (if Role.allow tok.role action then next (principalOf tok)
          else .done (refuse (.of .permissionDenied))).run (exec env) w.advance := by
  unfold requireAuth resolve
  simp only [carries,Prog.call_bind,Prog.run_call,exec,Store.lookupTokenByHash]
  cases w.store.tokenHash.lookup (env.hashToken secret) with
  | none | some tok => rfl

lemma unaryInterceptor_run (value : String) (rest : List String) (handler : Principal → M (Except Status α))
    (carries : Text.trimPrefix "Bearer " value = secret) :
    (unaryInterceptor env (some (value :: rest)) handler).run (exec env) w =
      match w.store.tokenHash.lookup (env.hashToken secret) with
      | none => (.error ⟨.unauthenticated,"invalid token"⟩,w.advance)
      | some tok => (handler (principalOf tok)).run (exec env) w.advance := by
  unfold unaryInterceptor resolvePrincipal resolve
  simp only [carries,Prog.call_bind,Prog.run_call,exec,Store.lookupTokenByHash]
  cases w.store.tokenHash.lookup (env.hashToken secret) with
  | none | some tok => rfl

end Laws

end Tempest.Auth
