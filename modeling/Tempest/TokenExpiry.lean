import Tempest.Auth

/-! The expiry of tokens. Neither the lookup nor the resolver nor the two callers
read `ExpiresAt`, so what decides is only whether the hash index knows the hash. -/
namespace Tempest.TokenExpiry
open Interaction Filing Auth

lemma trimPrefix_append (start text : String) : Text.trimPrefix start (start ++ text) = text := by
  have starts : Text.hasPrefix start (start ++ text) = true := by
    simp [Text.hasPrefix]
  rw [Text.trimPrefix,if_pos starts]
  simp

def handedByHTTP (env : Env) (w : World) (action : Action) (authorization : String) : Option Principal :=
  ((requireAuth env action authorization (fun _ => none) (fun p => .done (some p))).run (exec env) w).1

def handedByGRPC (env : Env) (w : World) (metadata : Option (List String)) : Except Status Principal :=
  ((unaryInterceptor env metadata (fun p => .done (.ok p))).run (exec env) w).1

def Expired (tok : APIToken) (now : Time) : Prop := ∃ expires ∈ tok.expiresAt, expires ≤ now

instance (tok : APIToken) (now : Time) : Decidable (Expired tok now) := by
  unfold Expired
  infer_instance

/-- Expiry is enforced for a token and a secret at an instant: once the token has
expired both entries refuse without running the handler, before they pass on the
token's principal and no other. -/
structure Enforced (env : Env) (w : World) (tok : APIToken) (secret : String) (now : Time) : Prop where
  httpRefuses : Expired tok now → ∀ (α : Type) action authorization (refuse : Classified → α) next,
    bearerToken authorization = some secret →
      (requireAuth env action authorization refuse next).run (exec env) w =
        (refuse (.of .unauthenticated),w.advance)
  grpcRefuses : Expired tok now → ∀ (α : Type) value rest (handler : Principal → M (Except Status α)),
    Text.trimPrefix "Bearer " value = secret →
      ∃ message, (unaryInterceptor env (some (value :: rest)) handler).run (exec env) w =
        (.error ⟨.unauthenticated,message⟩,w.advance)
  httpPasses : ¬ Expired tok now → ∀ action authorization, bearerToken authorization = some secret →
    ∀ principal, handedByHTTP env w action authorization = some principal → principal = principalOf tok
  grpcPasses : ¬ Expired tok now → ∀ value rest, Text.trimPrefix "Bearer " value = secret →
    ∀ principal, handedByGRPC env w (some (value :: rest)) = .ok principal → principal = principalOf tok

/-- Expiry is enforced exactly if the index has already forgotten the hash of an
expired token, and gives nothing but the token's own principal for another one. -/
theorem enforced_iff (env : Env) (w : World) (tok : APIToken) (secret : String) (now : Time)
    (hashes : env.hashToken secret = tok.tokenHash) :
    Enforced env w tok secret now ↔
      (Expired tok now ∧ w.store.tokenHash.lookup tok.tokenHash = none) ∨
        (¬ Expired tok now ∧ ∀ found, w.store.tokenHash.lookup tok.tokenHash = some found →
          principalOf found = principalOf tok) := by
  constructor
  · intro enforced
    have carries := trimPrefix_append "Bearer " secret
    have passes := unaryInterceptor_run env w secret ("Bearer " ++ secret) [] (fun p => .done (.ok p)) carries
    rw [hashes] at passes
    by_cases expired : Expired tok now
    · refine .inl ⟨expired,?_⟩
      obtain ⟨message,refused⟩ := enforced.grpcRefuses expired _ _ [] (fun p => .done (.ok p)) carries
      cases found : w.store.tokenHash.lookup tok.tokenHash with
      | none => rfl
      | some other =>
        rw [found] at passes
        rw [passes] at refused
        cases refused
    · refine .inr ⟨expired,?_⟩
      intro found here
      refine enforced.grpcPasses expired ("Bearer " ++ secret) [] carries _ ?_
      unfold handedByGRPC
      rw [passes,here]
      rfl
  · rintro (⟨expired,forgotten⟩ | ⟨valid,same⟩)
    · refine ⟨?_,?_,fun valid => absurd expired valid,fun valid => absurd expired valid⟩
      · intro _ α action authorization refuse next carries
        rw [requireAuth_run env w secret action authorization refuse next carries,hashes,forgotten]
      · intro _ α value rest handler carries
        refine ⟨"invalid token",?_⟩
        rw [unaryInterceptor_run env w secret value rest handler carries,hashes,forgotten]
    · refine ⟨fun expired => absurd expired valid,fun expired => absurd expired valid,?_,?_⟩
      · intro _ action authorization carries principal handed
        unfold handedByHTTP at handed
        rw [requireAuth_run env w secret _ _ _ _ carries,hashes] at handed
        cases found : w.store.tokenHash.lookup tok.tokenHash with
        | none =>
          rw [found] at handed
          cases handed
        | some other =>
          simp only [found] at handed
          split_ifs at handed
          · cases handed
            exact same other found
          · cases handed
      · intro _ value rest carries principal handed
        unfold handedByGRPC at handed
        rw [unaryInterceptor_run env w secret _ _ _ carries,hashes] at handed
        cases found : w.store.tokenHash.lookup tok.tokenHash with
        | none =>
          rw [found] at handed
          cases handed
        | some other =>
          rw [found] at handed
          cases handed
          exact same other found

def adminToken : APIToken where
  id := "t1"
  ns := "default"
  role := roleAdmin
  expiresAt := some 10
  tokenHash := "secret"

def tokenWorld : World where
  store := { Store.new with
    tokens := Store.new.tokens.insert adminToken, tokenHash := Store.new.tokenHash.insert adminToken }

theorem admin_enforced_early : Enforced .steady tokenWorld adminToken "secret" 9 := by
  refine (enforced_iff .steady tokenWorld adminToken "secret" 9 rfl).mpr (.inr ⟨by decide,?_⟩)
  intro found here
  cases here
  rfl

/-- At the instant 20 both entries still hand the principal to the handler. -/
theorem admin_passes_late :
    Store.new.createToken adminToken = .ok tokenWorld.store ∧ Expired adminToken 20 ∧
      Env.steady.hashToken "secret" = adminToken.tokenHash ∧
      handedByHTTP .steady tokenWorld .publish "Bearer secret" = some ⟨"t1","default",roleAdmin⟩ ∧
      handedByGRPC .steady tokenWorld (some ["Bearer secret"]) = .ok ⟨"t1","default",roleAdmin⟩ ∧
      ¬ Enforced .steady tokenWorld adminToken "secret" 20 := by
  have expired : Expired adminToken 20 := by decide
  have passes : handedByGRPC .steady tokenWorld (some ["Bearer secret"]) = .ok ⟨"t1","default",roleAdmin⟩ := by
    decide
  refine ⟨rfl,expired,rfl,by decide,passes,?_⟩
  intro enforced
  obtain ⟨message,refused⟩ := enforced.grpcRefuses expired Principal "Bearer secret" [] (fun p => .done (.ok p))
    (by decide)
  rw [handedByGRPC,refused] at passes
  cases passes

end Tempest.TokenExpiry
