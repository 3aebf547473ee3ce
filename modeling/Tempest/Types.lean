import Mathlib.Data.List.Basic

/-! Domain types of `pkg/types` and the error taxonomy of `pkg/errors`. Instants
and durations are nanosecond counts. A `map[string]any` is kept as its list of
fields, a field that is neither a string nor an integer as its JSON text. Record
fields that no modelled function reads or writes are left out. -/
namespace Tempest

abbrev Time := Int
abbrev Duration := Int
abbrev Namespace := String
abbrev EventType := String

def second : Duration := 1000000000

structure WorkflowID where
  ns : Namespace
  name : String
  version : Int
  deriving DecidableEq

inductive StepState
  | pending | queued | running | succeeded | failed | skipped
  deriving DecidableEq

inductive RunState
  | pending | queued | running | succeeded | failed | cancelled | timedOut
  deriving DecidableEq

def RunState.isTerminal : RunState → Bool
  | .succeeded | .failed | .cancelled | .timedOut => true
  | .pending | .queued | .running => false

def StepState.isDone : StepState → Bool
  | .succeeded | .skipped => true
  | .pending | .queued | .running | .failed => false

inductive Any
  | str (text : String)
  | int (value : Int)
  | json (text : String)
  deriving DecidableEq

abbrev Object := List (String × Any)

structure RetryPolicy where
  maxAttempts : Int := 0
  deriving DecidableEq

structure StepDefinition where
  id : String
  handler : String
  dependsOn : List String := []
  timeout : Duration := 0
  retry : RetryPolicy := {}
  deriving DecidableEq

structure WorkflowDefinition where
  id : WorkflowID
  steps : List StepDefinition
  createdAt : Time := 0
  updatedAt : Time := 0
  description : String := ""
  tags : List (String × String) := []
  timeout : Duration := 0
  deriving DecidableEq

structure RunInput where
  workflow : WorkflowID
  payload : Object := []
  deriving DecidableEq

structure StepRun where
  stepID : String
  state : StepState
  attempt : Int := 0
  startedAt : Option Time := none
  finishedAt : Option Time := none
  output : Object := []
  error : String := ""
  deriving DecidableEq

structure Run where
  id : String
  ns : Namespace
  workflow : WorkflowID
  state : RunState
  input : RunInput
  steps : List StepRun
  createdAt : Time
  startedAt : Option Time := none
  finishedAt : Option Time := none
  error : String := ""
  attempt : Int := 0
  labels : List (String × String) := []
  parentRunID : String := ""
  deriving DecidableEq

structure QueueItem where
  runID : String
  ns : Namespace
  stepID : String
  enqueuedAt : Time
  visibleAt : Time
  attempt : Int
  deriving DecidableEq

structure QueueLease where
  item : QueueItem
  token : String
  deriving DecidableEq

def eventRunCreated : EventType := "run.created"
def eventStepQueued : EventType := "step.queued"
def eventStepStarted : EventType := "step.started"
def eventStepDone : EventType := "step.completed"
def eventStepFailed : EventType := "step.failed"
def eventRunCompleted : EventType := "run.completed"
def eventRunFailed : EventType := "run.failed"
def eventRunCancelled : EventType := "run.cancelled"
def eventRunTimedOut : EventType := "run.timed_out"
def eventRetrySched : EventType := "retry.scheduled"

structure Event where
  id : String := ""
  type : EventType
  version : Int := 1
  ns : Namespace
  runID : String
  stepID : String := ""
  createdAt : Time
  payload : Object := []
  attempt : Int := 0
  deriving DecidableEq

def EventType.short (t : EventType) : String :=
  if t = eventRunCreated then "run-created"
  else if t = eventStepQueued then "step-queued"
  else if t = eventStepStarted then "step-started"
  else if t = eventStepDone then "step-done"
  else if t = eventStepFailed then "step-failed"
  else if t = eventRunCompleted then "run-completed"
  else if t = eventRunFailed then "run-failed"
  else if t = eventRunCancelled then "run-cancelled"
  else if t = eventRunTimedOut then "run-timedout"
  else if t = eventRetrySched then "retry-scheduled"
  else "event"

structure WebhookEndpoint where
  id : String
  ns : Namespace
  url : String
  secret : String := ""
  types : List EventType := []
  active : Bool
  timeout : Duration := 0
  createdAt : Time := 0
  deriving DecidableEq

inductive DeliveryStatus
  | queued | delivered | failed
  deriving DecidableEq

structure Delivery where
  id : String
  ns : Namespace
  eventID : String
  endpointID : String
  status : DeliveryStatus
  attempts : Int := 0
  deriving DecidableEq

structure APIToken where
  id : String
  ns : Namespace
  role : String
  label : String := ""
  createdAt : Time := 0
  expiresAt : Option Time := none
  tokenHash : String
  deriving DecidableEq

inductive ErrorClass
  | notFound | alreadyExists | invalidArgument | conflict | unauthenticated | permissionDenied
  | internal | unavailable | deadlineExceeded | canceled
  deriving DecidableEq

def ErrorClass.sentinelText : ErrorClass → String
  | .notFound => "not found"
  | .alreadyExists => "already exists"
  | .invalidArgument => "invalid argument"
  | .conflict => "conflict"
  | .unauthenticated => "unauthenticated"
  | .permissionDenied => "permission denied"
  | .internal => "internal error"
  | .unavailable => "unavailable"
  | .deadlineExceeded => "deadline exceeded"
  | .canceled => "canceled"

/-- What a classified error wraps: a sentinel of the package, or an error with a
text of its own, which `errors.Is` matches with no sentinel. -/
inductive Cause
  | sentinel (cls : ErrorClass)
  | text (message : String)
  deriving DecidableEq

structure Classified where
  cls : ErrorClass
  cause : Cause
  deriving DecidableEq

namespace Classified

def of (cls : ErrorClass) : Classified := ⟨cls,.sentinel cls⟩

def message (e : Classified) : String :=
  match e.cause with
  | .sentinel cls => cls.sentinelText
  | .text message => message

def is (e : Classified) (cls : ErrorClass) : Bool := e.cause = .sentinel cls

end Classified

end Tempest
