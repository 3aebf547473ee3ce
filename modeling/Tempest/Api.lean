import Tempest.Auth
import Tempest.Validation

/-! Definitions over HTTP, `internal/api`: the handler that stores one, its errors and
the conversions of `internal/api/v1`. A request is taken after routing; a response is
the data that the handler encodes. -/
namespace Tempest

namespace V1

structure Step where
  id : String
  handler : String
  depends : List String := []
  timeout : String := ""
  retryMax : Int := 0
  deriving DecidableEq

structure WorkflowDefinition where
  name : String
  version : Int
  ns : String
  steps : List Step := []
  deriving DecidableEq

end V1

/-- The encodings of the standard library: JSON bodies and durations. -/
structure Codec where
  workflowDefinition : String → Except String V1.WorkflowDefinition
  parseDuration : String → Option Duration
  durationString : Duration → String

namespace V1

def toDefinition (codec : Codec) (d : Tempest.WorkflowDefinition) : WorkflowDefinition where
  name := d.id.name
  version := d.id.version
  ns := d.id.ns
  steps := d.steps.map (fun s =>
    { id := s.id, handler := s.handler, depends := s.dependsOn, timeout := codec.durationString s.timeout })

end V1

namespace Api
open Interaction Auth

structure Request where
  path : String
  body : String := ""
  deriving DecidableEq

structure Problem where
  title : String
  status : Nat
  detail : String
  path : String
  deriving DecidableEq

inductive Body
  | problem (p : Problem)
  | definition (d : V1.WorkflowDefinition)
  deriving DecidableEq

structure Response where
  status : Nat
  contentType : String
  body : Body
  deriving DecidableEq

def json (status : Nat) (body : Body) : Response := ⟨status,"application/json; charset=utf-8",body⟩

def writeProblem (req : Request) (code : Nat) (title detail : String) : Response :=
  ⟨code,"application/problem+json; charset=utf-8",.problem ⟨title,code,detail,req.path⟩⟩

def mapError (req : Request) (err : Classified) : Response :=
  if err.is .notFound then writeProblem req 404 "Not Found" (Text.trimPrefix "not_found: " err.message)
  else if err.is .conflict then writeProblem req 409 "Conflict" (Text.trimPrefix "conflict: " err.message)
  else if err.is .unauthenticated then writeProblem req 401 "Unauthorized" "authentication required"
  else if err.is .permissionDenied then writeProblem req 403 "Forbidden" "insufficient permissions"
  else if err.is .invalidArgument then writeProblem req 400 "Bad Request" err.message
  else writeProblem req 500 "Internal Server Error" "an internal error occurred"

def badRequest (req : Request) (message : String) : Response :=
  mapError req ⟨.invalidArgument,.text message⟩

variable (codec : Codec)

/-- The definition that `createDefinition` makes of a body. The duration of a step
that does not parse is zero, and nothing checks the steps. -/
def definitionOf (body : V1.WorkflowDefinition) (createdAt updatedAt : Time) : WorkflowDefinition where
  id := ⟨body.ns,body.name,body.version⟩
  steps := body.steps.map (fun s =>
    { id := s.id, handler := s.handler, dependsOn := s.depends, timeout := (codec.parseDuration s.timeout).getD 0
      retry := { maxAttempts := s.retryMax } })
  createdAt := createdAt
  updatedAt := updatedAt

def createDefinition (req : Request) : M Response :=
  match codec.workflowDefinition req.body with
  | .error e => pure (badRequest req e)
  | .ok body => do
    let createdAt ← Call.timeNow
    let updatedAt ← Call.timeNow
    let d := definitionOf codec body createdAt updatedAt
    match ← Call.createDefinition d with
    | .error e => pure (mapError req e)
    | .ok () => pure (json 201 (.definition (V1.toDefinition codec d)))

end Api

end Tempest
