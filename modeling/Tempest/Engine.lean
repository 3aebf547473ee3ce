import Tempest.Memstore
import Tempest.Workflow
import Tempest.Lib.Interaction

/-! The scheduler engine of `internal/scheduler`, written as programs over the
atomic operations that it performs: the critical sections of the store, the
clock, the event sink and the handlers. What the program cannot determine (clock
readings, map orders, random bytes, handler results) is an oracle indexed by the
number of operations performed so far. -/
namespace Tempest
open Interaction

structure Handle where
  runID : String
  stepID : String
  ns : String := ""
  runInput : Object
  deadline : Duration
  deriving DecidableEq

structure HandlerResult where
  output : Object := []
  error : Option String := none
  deriving DecidableEq

structure Env where
  clock : Nat → Time
  wall : Nat → Time
  order : Nat → List String
  token : Nat → Nat → String
  random : Nat → List (Fin 256)
  registered : String → Bool
  execute : Nat → String → Handle → Except String HandlerResult
  quote : String → String
  hashToken : String → String
  sink : Bool
  maxDequeue : Int

/-- The clock advances by one with every operation, every map is iterated in the
order of its rows and every handler is registered and succeeds. -/
def Env.steady : Env where
  clock := fun tick => tick
  wall := fun tick => tick
  order := fun _ => []
  token := fun _ _ => "lease-0"
  random := fun _ => [0]
  registered := fun _ => true
  execute := fun _ _ _ => .ok {}
  quote := fun text => text
  hashToken := fun secret => secret
  sink := true
  maxDequeue := 32

/-- Every handler is registered and succeeds. -/
structure Env.Reliable (env : Env) : Prop where
  registered : ∀ name, env.registered name = true
  succeeds : ∀ tick name handle, ∃ result, env.execute tick name handle = .ok result ∧ result.error = none

lemma Env.steady_reliable : Env.steady.Reliable := ⟨fun _ => rfl,fun _ _ _ => ⟨{},rfl,rfl⟩⟩

/-- One call of a handler, with the store as it was at that moment and the answer. -/
structure Invocation where
  ns : Namespace
  runID : String
  stepID : String
  store : Store
  result : Except String HandlerResult

structure World where
  store : Store
  tick : Nat := 0
  published : List Event := []
  invocations : List Invocation := []

def World.holding (d : WorkflowDefinition) : World :=
  { store := { Store.new with definitions := Store.new.definitions.insert d } }

inductive Op
  | now
  | timeNow
  | createDefinition (d : WorkflowDefinition)
  | getDefinition (id : WorkflowID)
  | getDefinitionByName (ns : Namespace) (name : String)
  | createRun (r : Run)
  | getRun (ns : Namespace) (id : String)
  | updateRunState (ns : Namespace) (id : String) (target : RunState) (stamp : Time)
  | updateRunError (ns : Namespace) (id errMsg : String)
  | updateStepState (ns : Namespace) (id : String) (step : StepRun)
  | enqueue (item : QueueItem)
  | dequeueAny (limit : Int) (now : Time)
  | completeStep (ns : Namespace) (runID stepID leaseToken : String)
  | lookupTokenByHash (hash : String)
  | emit (ev : Event)
  | execute (handler : String) (run : Run) (handle : Handle)

namespace Op

@[reducible] def Res : Op → Type
  | now | timeNow => Time
  | createDefinition _ | createRun _ | updateRunState .. | updateRunError .. | updateStepState .. |
    enqueue _ | completeStep .. => Except Classified Unit
  | getDefinition _ | getDefinitionByName .. => Except Classified WorkflowDefinition
  | getRun .. => Except Classified Run
  | dequeueAny .. => List QueueLease
  | lookupTokenByHash _ => Except Classified APIToken
  | emit _ => Unit
  | execute .. => Except String HandlerResult

end Op

namespace World

def advance (w : World) : World := { w with tick := w.tick + 1 }

def write (w : World) (result : Except Classified Store) : Except Classified Unit × World :=
  match result with
  | .ok store => (.ok (),{ w.advance with store })
  | .error e => (.error e,w.advance)

end World

def hexEncode (bytes : List (Fin 256)) : String :=
  String.ofList (bytes.flatMap (fun b => [Nat.digitChar (b.val / 16),Nat.digitChar (b.val % 16)]))

def eventID (env : Env) (tick : Nat) (ev : Event) : String :=
  EventType.short ev.type ++ "-" ++ hexEncode (env.random tick)

def exec (env : Env) (op : Op) (w : World) : op.Res × World :=
  match op with
  | .now => (env.clock w.tick,w.advance)
  | .timeNow => (env.wall w.tick,w.advance)
  | .createDefinition d => w.write (w.store.createDefinition d)
  | .getDefinition id => (w.store.getDefinition id,w.advance)
  | .getDefinitionByName ns name => (w.store.getDefinitionByName (env.order w.tick) ns name,w.advance)
  | .createRun r => w.write (w.store.createRun r)
  | .getRun ns id => (w.store.getRun ns id,w.advance)
  | .updateRunState ns id target stamp => w.write (w.store.updateRunState ns id target stamp)
  | .updateRunError ns id errMsg => w.write (w.store.updateRunError ns id errMsg)
  | .updateStepState ns id step => w.write (w.store.updateStepState env.quote ns id step)
  | .enqueue item => w.write (.ok (w.store.enqueue item))
  | .dequeueAny limit now =>
    let (leases,store) := w.store.dequeueAny (env.order w.tick) (env.token w.tick) limit now
    (leases,{ w.advance with store })
  | .completeStep ns runID stepID token => w.write (w.store.completeStep ns runID stepID token)
  | .lookupTokenByHash hash => (w.store.lookupTokenByHash hash,w.advance)
  | .emit ev =>
    ((),if env.sink then
      { w.advance with published := w.published ++ [{ ev with id := eventID env w.tick ev }] }
      else w.advance)
  | .execute handler run handle =>
    let result := env.execute w.tick handler handle
    (result,{ w.advance with
      invocations := w.invocations ++ [⟨run.ns,run.id,handle.stepID,w.store,result⟩] })

abbrev M := Prog Op.Res

/-! The operations as programs of one call each. -/
namespace Call

abbrev now : M Time := .call .now .done
abbrev timeNow : M Time := .call .timeNow .done
abbrev createDefinition (d : WorkflowDefinition) : M (Except Classified Unit) := .call (.createDefinition d) .done
abbrev getDefinition (id : WorkflowID) : M (Except Classified WorkflowDefinition) := .call (.getDefinition id) .done
abbrev getDefinitionByName (ns : Namespace) (name : String) : M (Except Classified WorkflowDefinition) :=
  .call (.getDefinitionByName ns name) .done
abbrev createRun (r : Run) : M (Except Classified Unit) := .call (.createRun r) .done
abbrev getRun (ns : Namespace) (id : String) : M (Except Classified Run) := .call (.getRun ns id) .done
abbrev updateRunState (ns : Namespace) (id : String) (target : RunState) (stamp : Time) :
    M (Except Classified Unit) := .call (.updateRunState ns id target stamp) .done
abbrev updateStepState (ns : Namespace) (id : String) (step : StepRun) : M (Except Classified Unit) :=
  .call (.updateStepState ns id step) .done
abbrev enqueue (item : QueueItem) : M (Except Classified Unit) := .call (.enqueue item) .done
abbrev dequeueAny (limit : Int) (now : Time) : M (List QueueLease) := .call (.dequeueAny limit now) .done
abbrev completeStep (ns : Namespace) (runID stepID leaseToken : String) : M (Except Classified Unit) :=
  .call (.completeStep ns runID stepID leaseToken) .done
abbrev emit (ev : Event) : M Unit := .call (.emit ev) .done
abbrev execute (handler : String) (run : Run) (handle : Handle) : M (Except String HandlerResult) :=
  .call (.execute handler run handle) .done

end Call

/-- How a Go call ends other than by returning nil. -/
inductive Failure
  | err (e : Classified)
  | panic
  deriving DecidableEq

namespace Engine

def queueItemFor (run : Run) (step : StepRun) (now visibleAt : Time) : QueueItem where
  runID := run.id
  ns := run.ns
  stepID := step.stepID
  enqueuedAt := now
  visibleAt := visibleAt
  attempt := step.attempt + 1

def changeStep (id : String) (change : StepRun → StepRun) :
    List StepRun → Option (StepRun × List StepRun)
  | [] => none
  | s :: rest =>
    if s.stepID = id then some (change s,change s :: rest)
    else (changeStep id change rest).map (fun (step,steps) => (step,s :: steps))

/-- `changeStep` on the engine's own copy of the run, followed by the store's
update of that step, whose error is dropped everywhere. -/
def storeStep (run : Run) (id : String) (change : StepRun → StepRun) : M Run :=
  match changeStep id change run.steps with
  | none => .done run
  | some (step,steps) => .call (.updateStepState run.ns run.id step) (fun _ => .done { run with steps })

def enqueueEach (now : Time) : Run → List StepRun → M (Except Failure Unit)
  | _, [] => .done (.ok ())
  | run, s :: rest =>
    Call.enqueue (queueItemFor run s now now) >>= fun
      | .error e => .done (.error (.err e))
      | .ok () => do
        let run ← storeStep run s.stepID (fun step => { step with state := .queued })
        Call.emit {
          type := eventStepQueued, ns := run.ns, runID := run.id, stepID := s.stepID
          createdAt := now, attempt := s.attempt + 1 }
        enqueueEach now run rest

def enqueueReadySteps (d : WorkflowDefinition) (run : Run) : M (Except Failure Unit) := do
  let now ← Call.now
  enqueueEach now run (Workflow.readySteps d run)

def announce (now : Time) (d : WorkflowDefinition) (run : Run) :
    Except Failure Unit → M (Except Failure String)
  | .error e => .done (.error e)
  | .ok () =>
    .call (.emit {
      type := eventRunCreated, ns := run.ns, runID := run.id, createdAt := now
      payload := [("workflow",.str d.id.name),("version",.int d.id.version)] })
      (fun _ => .done (.ok run.id))

def submit (input : RunInput) : M (Except Failure String) := do
  let now ← Call.now
  match ← Call.getDefinitionByName input.workflow.ns input.workflow.name with
  | .error e => pure (.error (.err e))
  | .ok d =>
    let unixNano ← Call.timeNow
    match Workflow.newRun d { input with workflow := d.id } now unixNano with
    | .error e => pure (.error (.err e))
    | .ok run =>
      match ← Call.createRun run with
      | .error e => pure (.error (.err e))
      | .ok () =>
        match ← Call.updateRunState run.ns run.id .queued now with
        | .error e => pure (.error (.err e))
        | .ok () => enqueueReadySteps d run >>= announce now d run

def finishEvent : RunState → EventType
  | .failed => eventRunFailed
  | .cancelled => eventRunCancelled
  | .timedOut => eventRunTimedOut
  | _ => eventRunCompleted

def recordError (run : Run) (errMsg : String) : M Unit :=
  if errMsg ≠ "" then .call (.updateRunError run.ns run.id errMsg) (fun _ => .done ()) else .done ()

def finishRun (run : Run) (state : RunState) (errMsg : String) : M (Except Failure Unit) := do
  let now ← Call.now
  let _ ← Call.updateRunState run.ns run.id state now
  recordError run errMsg
  Call.emit {
    type := finishEvent state, ns := run.ns, runID := run.id, createdAt := now
    payload := [("error",.str errMsg)] }
  pure (.ok ())

def cancel (ns : Namespace) (runID : String) : M (Except Failure Unit) := do
  match ← Call.getRun ns runID with
  | .error e => pure (.error (.err e))
  | .ok run =>
    if run.state.isTerminal then pure (.error (.err (.of .conflict)))
    else finishRun run .cancelled ""

def promoteRun (run : Run) : M (Except Failure Unit) := finishRun run .succeeded ""

def succeeded (now : Time) (output : Object) (step : StepRun) : StepRun :=
  { step with state := .succeeded, finishedAt := some now, output }

def allDone (run : Run) : Bool := run.steps.all (fun s => s.state.isDone)

def promoteOrEnqueue (d : WorkflowDefinition) (run : Run) : M (Except Failure Unit) :=
  if allDone run then promoteRun run else enqueueReadySteps d run

def completeStep (run : Run) (d : WorkflowDefinition) (lease : QueueLease) (output : Object) :
    M (Except Failure Unit) := do
  let now ← Call.now
  match ← Call.completeStep lease.item.ns lease.item.runID lease.item.stepID lease.token with
  | .error e => pure (.error (.err e))
  | .ok () =>
    let run ← storeStep run lease.item.stepID (succeeded now output)
    Call.emit {
      type := eventStepDone, ns := run.ns, runID := run.id, stepID := lease.item.stepID
      createdAt := now, attempt := lease.item.attempt }
    promoteOrEnqueue d run

def failMessage (err : String) : String := if err = "" then "step failed" else err

def failStep (run : Run) (lease : QueueLease) (err : String) : M (Except Failure Unit) := do
  let now ← Call.now
  let msg := failMessage err
  let _ ← Call.updateStepState lease.item.ns lease.item.runID
    { stepID := lease.item.stepID, state := .failed, error := msg, attempt := lease.item.attempt }
  Call.emit {
    type := eventStepFailed, ns := run.ns, runID := run.id, stepID := lease.item.stepID
    createdAt := now, attempt := lease.item.attempt, payload := [("error",.str msg)] }
  let _ ← Call.completeStep lease.item.ns lease.item.runID lease.item.stepID lease.token
  finishRun run .failed msg

def findStepDef (d : WorkflowDefinition) (id : String) : Option StepDefinition :=
  d.steps.find? (fun sd => sd.id = id)

def noHandler (env : Env) (name : String) : String := "no handler named " ++ env.quote name

def markStepRunning (run : Run) (item : QueueItem) (stamp : Time) : M Run :=
  storeStep run item.stepID (fun step => { step with state := .running, startedAt := some stamp })

def settleResult (run : Run) (d : WorkflowDefinition) (lease : QueueLease) :
    Except String HandlerResult → M (Except Failure Unit)
  | .error execErr => failStep run lease execErr
  | .ok result =>
    match result.error with
    | some err => failStep run lease err
    | none => completeStep run d lease result.output

def runHandler (run : Run) (d : WorkflowDefinition) (sd : StepDefinition) (lease : QueueLease) :
    M (Except Failure Unit) := do
  let started ← Call.now
  let run ← markStepRunning run lease.item started
  let now ← Call.now
  Call.emit {
    type := eventStepStarted, ns := run.ns, runID := run.id, stepID := lease.item.stepID
    createdAt := now, attempt := lease.item.attempt }
  let result ← Call.execute sd.handler run {
    runID := run.id, stepID := lease.item.stepID, runInput := run.input.payload, deadline := sd.timeout }
  settleResult run d lease result

def executeLease (env : Env) (lease : QueueLease) : M (Except Failure Unit) := do
  match ← Call.getRun lease.item.ns lease.item.runID with
  | .error e => pure (.error (.err e))
  | .ok run =>
    match ← Call.getDefinition run.workflow with
    | .error e => pure (.error (.err e))
    | .ok d =>
      match findStepDef d lease.item.stepID with
      | none => pure (.error .panic)
      | some sd =>
        if env.registered sd.handler then runHandler run d sd lease
        else failStep run lease (noHandler env sd.handler)

def processLease (env : Env) (lease : QueueLease) : M (Except Failure Unit) := executeLease env lease

def dequeueLeases (env : Env) : M (List QueueLease) := do
  let now ← Call.now
  Call.dequeueAny env.maxDequeue now

def processEach (env : Env) : List QueueLease → M (Except Failure Unit)
  | [] => .done (.ok ())
  | lease :: rest =>
    processLease env lease >>= fun
      | .error .panic => .done (.error .panic)
      | _ => processEach env rest

def processLeases (env : Env) : M (Except Failure Unit) := do
  let leases ← dequeueLeases env
  processEach env leases

end Engine

end Tempest
