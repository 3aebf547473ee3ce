import Tempest.Api

/-! Definitions over gRPC, `internal/grpcapi`: the method that stores one, behind the
interceptor. Fields of type `int32` are integers of that range; conversions to
`int32` wrap around. -/
namespace Tempest.Grpc
open Interaction Auth

def int32 (i : Int) : Int := i.bmod (2^32)

structure StepSpec where
  id : String
  handler : String
  depends : List String := []
  timeoutNs : Int := 0
  deriving DecidableEq

structure DefinitionResponse where
  name : String
  version : Int
  deriving DecidableEq

def toGRPCError (err : Classified) : Status :=
  let msg := err.message
  if Text.contains msg "not_found" || Text.contains msg "not found" then ⟨.notFound,msg⟩
  else if Text.contains msg "already_exists" || Text.contains msg "already exists" then ⟨.alreadyExists,msg⟩
  else if Text.contains msg "conflict" then ⟨.alreadyExists,msg⟩
  else if Text.contains msg "unauthenticated" then ⟨.unauthenticated,msg⟩
  else if Text.contains msg "permission" then ⟨.permissionDenied,msg⟩
  else ⟨.internal,msg⟩

def definitionOf (name : String) (version : Int) (steps : List StepSpec) : WorkflowDefinition where
  id := ⟨"",name,version⟩
  steps := steps.map (fun st =>
    { id := st.id, handler := st.handler, dependsOn := st.depends, timeout := st.timeoutNs })

def createDefinition (name : String) (version : Int) (steps : List StepSpec) : M (Except Status DefinitionResponse) := do
  let d := definitionOf name version steps
  match ← Call.createDefinition d with
  | .error e => pure (.error (toGRPCError e))
  | .ok () => pure (.ok ⟨d.id.name,int32 d.id.version⟩)

end Tempest.Grpc
