import Tempest.EngineLaws
import Tempest.Steps

/-! The effect of whole engine calls when nothing runs in between. The engine
works on its own copy of a run, which then agrees with the stored one at every
moment; a call moves the stored run and the queue items of that run, and nothing
else. -/
open List
namespace Tempest
open Interaction Filing Function Workflow

def World.item (w : World) (r : Run) (id : String) : Option QueueItem :=
  w.store.queue.lookup (queueKey r.ns r.id id)

lemma queueKey_injective (ns : Namespace) (runID a b : String) (same : queueKey ns runID a = queueKey ns runID b) :
    a = b := by
  have texts := congrArg String.toList same
  simp only [queueKey,String.toList_append] at texts
  exact String.toList_inj.mp (append_cancel_left texts)

/-- From `w` to `w'` the stored run `r` has become `r'`, its queue items are now
`items`, the handlers called are `log`, and the rest is unchanged. -/
structure Moves (w w' : World) (r r' : Run) (items : String → Option QueueItem) (log : List Invocation) :
    Prop where
  ns : r'.ns = r.ns
  id : r'.id = r.id
  workflow : r'.workflow = r.workflow
  runs : ∀ k, w'.store.runs.lookup k = if k = r.key then some r' else w.store.runs.lookup k
  items : ∀ id, w'.item r id = items id
  others : ∀ q, (∀ id, q ≠ queueKey r.ns r.id id) → w'.store.queue.lookup q = w.store.queue.lookup q
  definitions : w'.store.definitions = w.store.definitions
  invocations : w'.invocations = w.invocations ++ log
  ticks : w.tick ≤ w'.tick

namespace Moves

variable {w w' w'' : World} {r r' r'' : Run} {items items' : String → Option QueueItem}
  {log log' : List Invocation}

lemma key (moves : Moves w w' r r' items log) : r'.key = r.key := by
  unfold Run.key
  rw [moves.ns,moves.id]

lemma stored (moves : Moves w w' r r' items log) : w'.store.runs.lookup r'.key = some r' := by
  rw [moves.runs,if_pos moves.key]

lemma item_eq (moves : Moves w w' r r' items log) : w'.item r' = items := by
  funext id
  rw [← moves.items id,World.item,World.item,moves.ns,moves.id]

lemma refl (stored : w.store.runs.lookup r.key = some r) : Moves w w r r (w.item r) [] where
  ns := rfl
  id := rfl
  workflow := rfl
  runs := by
    intro k
    split_ifs with same
    · rw [same,stored]
    · rfl
  items := fun _ => rfl
  others := fun _ _ => rfl
  definitions := rfl
  invocations := (append_nil _).symm
  ticks := le_rfl

lemma trans (first : Moves w w' r r' items log) (second : Moves w' w'' r' r'' items' log') :
    Moves w w'' r r'' items' (log ++ log') where
  ns := second.ns.trans first.ns
  id := second.id.trans first.id
  workflow := second.workflow.trans first.workflow
  runs := by
    intro k
    rw [second.runs,first.runs,first.key]
    split_ifs <;> rfl
  items := by
    intro id
    rw [← second.items id,World.item,World.item,first.ns,first.id]
  others := by
    intro q foreign
    rw [second.others q (by rwa [first.ns,first.id]),first.others q foreign]
  definitions := second.definitions.trans first.definitions
  invocations := by rw [second.invocations,first.invocations,append_assoc]
  ticks := first.ticks.trans second.ticks

lemma trans_quiet (first : Moves w w' r r' items log) (second : Moves w' w'' r' r'' (w'.item r') log') :
    Moves w w'' r r'' items (log ++ log') := by
  have whole := first.trans second
  rwa [first.item_eq] at whole

end Moves

lemma exec_tick (env : Env) (op : Op) (w : World) : (exec env op w).2.tick = w.tick + 1 := by
  have write : ∀ result,(w.write result).2.tick = w.tick + 1 := by
    intro result
    cases result <;> rfl
  cases op with
  | emit ev => simp only [exec]; split <;> rfl
  | _ => first | rfl | exact write _

section Operations

variable (env : Env) {w : World} {r : Run} (stored : w.store.runs.lookup r.key = some r)

include stored

lemma rerun_moves (op : Op) (change : Run → Run) (ns : (change r).ns = r.ns) (id : (change r).id = r.id)
    (workflow : (change r).workflow = r.workflow)
    (changes : ∀ k,(exec env op w).2.store.runs.lookup k =
      if k = runKey r.ns r.id then (w.store.runs.lookup k).map change else w.store.runs.lookup k)
    (queue : op.touchesQueue = false) (definitions : op.touchesDefinitions = false)
    (handler : op.isExecute = false) : Moves w (exec env op w).2 r (change r) (w.item r) [] where
  ns := ns
  id := id
  workflow := workflow
  runs := by
    intro k
    rw [changes]
    split_ifs with same other other
    · rw [same]
      change (w.store.runs.lookup r.key).map change = _
      rw [stored]
      rfl
    · exact absurd same other
    · exact absurd other same
    · rfl
  items := fun id => by rw [World.item,exec_queue env w op queue]; rfl
  others := fun q _ => by rw [exec_queue env w op queue]
  definitions := exec_definitions env w op definitions
  invocations := by rw [exec_invocations env w op handler,append_nil]
  ticks := by rw [exec_tick]; exact Nat.le_succ _

lemma silent_moves (op : Op) (runs : op.touchesRuns = false) (queue : op.touchesQueue = false)
    (definitions : op.touchesDefinitions = false) (handler : op.isExecute = false) :
    Moves w (exec env op w).2 r r (w.item r) [] := by
  refine rerun_moves env stored op id rfl rfl rfl (fun k => ?_) queue definitions handler
  rw [exec_runs env w op runs,Option.map_id_fun,id_eq,ite_self]

lemma requeue_moves (op : Op) (id : String) (item : Option QueueItem)
    (changes : ∀ q,(exec env op w).2.store.queue.lookup q =
      if q = queueKey r.ns r.id id then item else w.store.queue.lookup q)
    (runs : op.touchesRuns = false) (definitions : op.touchesDefinitions = false)
    (handler : op.isExecute = false) :
    Moves w (exec env op w).2 r r (update (w.item r) id item) [] where
  ns := rfl
  id := rfl
  workflow := rfl
  runs := by
    intro k
    rw [exec_runs env w op runs]
    split_ifs with same
    · rw [same,stored]
    · rfl
  items := by
    intro x
    rw [World.item,changes]
    by_cases same : x = id
    · rw [same,if_pos rfl,update_self]
    · rw [if_neg (fun equal => same (queueKey_injective _ _ _ _ equal)),update_of_ne same]
      rfl
  others := by
    intro q foreign
    rw [changes,if_neg (foreign id)]
  definitions := exec_definitions env w op definitions
  invocations := by rw [exec_invocations env w op handler,append_nil]
  ticks := by rw [exec_tick]; exact Nat.le_succ _

lemma updateStepState_moves (ns : Namespace) (id : String) (sameNs : ns = r.ns) (sameID : id = r.id)
    (step : StepRun) : Moves w (exec env (.updateStepState ns id step) w).2 r
      { r with steps := modifyStep step.stepID (fun _ => step) r.steps } (w.item r) [] := by
  have moves := rerun_moves env stored (.updateStepState ns id step) (Run.putStep step) rfl rfl rfl
    (fun k => by rw [exec_updateStepState_lookup,sameNs,sameID]) rfl rfl rfl
  rwa [Run.putStep,replaceStep_eq] at moves

lemma execute_moves (handler : String) (run : Run) (handle : Handle) :
    Moves w (exec env (.execute handler run handle) w).2 r r (w.item r)
      [⟨run.ns,run.id,handle.stepID,w.store,env.execute w.tick handler handle⟩] where
  ns := rfl
  id := rfl
  workflow := rfl
  runs := by
    intro k
    change w.store.runs.lookup k = _
    split_ifs with same
    · rw [same,stored]
    · rfl
  items := fun _ => rfl
  others := fun _ _ => rfl
  definitions := rfl
  invocations := rfl
  ticks := Nat.le_succ _

end Operations

/-- The engine's copy of a run is a copy of the stored run `r`, -/
structure Names (w : World) (run r : Run) : Prop where
  stored : w.store.runs.lookup r.key = some r
  ns : run.ns = r.ns
  id : run.id = r.id

/-- and agrees with it in the steps. -/
structure Mirrors (w : World) (run r : Run) : Prop extends Names w run r where
  steps : run.steps = r.steps

lemma Moves.names {w w' : World} {r r' run run' : Run} {items : String → Option QueueItem}
    {log : List Invocation} (moves : Moves w w' r r' items log) (names : Names w run r)
    (ns : run'.ns = run.ns) (id : run'.id = run.id) : Names w' run' r' :=
  ⟨moves.stored,by rw [ns,names.ns,moves.ns],by rw [id,names.id,moves.id]⟩

lemma Moves.mirrors {w w' : World} {r r' run : Run} {items : String → Option QueueItem}
    {log : List Invocation} (moves : Moves w w' r r' items log) (run' : Run) (names : Names w run r)
    (ns : run'.ns = run.ns) (id : run'.id = run.id) (steps : run'.steps = r'.steps) : Mirrors w' run' r' :=
  ⟨moves.names names ns id,steps⟩

def enqueued (r : Run) (now : Time) (ready : List StepRun) (items : String → Option QueueItem) :
    String → Option QueueItem :=
  ready.foldl (fun items s => Function.update items s.stepID (some (Engine.queueItemFor r s now now))) items

def Releases (d : WorkflowDefinition) (r : Run) (now : Time) (w w' : World) : Prop :=
  Moves w w' r (r.released d) (enqueued r now (readySteps d r) (w.item r)) []

namespace Engine

variable (env : Env) {w : World} {run r : Run}

lemma storeStep_spec (mirrors : Mirrors w run r) (id : String) (change : StepRun → StepRun)
    (keepsID : ∀ s,s.stepID = id → (change s).stepID = id) : ∃ w',(storeStep run id change).run (exec env) w =
        ({ run with steps := modifyStep id change run.steps },w') ∧
      Moves w w' r { r with steps := modifyStep id change r.steps } (w.item r) [] := by
  unfold storeStep
  cases found : changeStep id change run.steps with
  | none =>
    have same := changeStep_none id change run.steps found
    refine ⟨w,by rw [same]; rfl,?_⟩
    rw [← mirrors.steps,same,mirrors.steps]
    exact Moves.refl mirrors.stored
  | some changed =>
    obtain ⟨step,steps⟩ := changed
    obtain ⟨named,becomes,agree⟩ := changeStep_some id change keepsID run.steps steps step found
    refine ⟨_,by rw [← becomes]; rfl,?_⟩
    have moves := updateStepState_moves env mirrors.stored run.ns run.id mirrors.ns mirrors.id step
    rw [named,← mirrors.steps,agree,mirrors.steps] at moves
    exact moves

lemma enqueueEach_spec (mirrors : Mirrors w run r) (now : Time) (ready : List StepRun) :
    ∃ w',(enqueueEach now run ready).run (exec env) w = (.ok (),w') ∧
      Moves w w' r { r with steps := markQueued ready r.steps } (enqueued r now ready (w.item r)) [] := by
  induction ready generalizing w run r with
  | nil => exact ⟨w,rfl,Moves.refl mirrors.stored⟩
  | cons s rest ih =>
    have entered := requeue_moves env mirrors.stored (.enqueue (queueItemFor run s now now)) s.stepID
      (some (queueItemFor run s now now))
      (fun q => by rw [exec_enqueue_lookup,QueueItem.key,queueItemFor,mirrors.ns,mirrors.id]) rfl rfl rfl
    have mirrors₁ := entered.mirrors run mirrors.toNames rfl rfl mirrors.steps
    obtain ⟨w₂,marks,marked⟩ := storeStep_spec env mirrors₁ s.stepID toQueued (fun _ same => same)
    have told := silent_moves env marked.stored (.emit {
      type := eventStepQueued,ns := run.ns,runID := run.id,stepID := s.stepID
      createdAt := now,attempt := s.attempt + 1 }) rfl rfl rfl rfl
    have moved := (entered.trans_quiet marked).trans_quiet told
    have mirrors₃ := moved.mirrors { run with steps := modifyStep s.stepID toQueued run.steps }
      mirrors.toNames rfl rfl (by rw [mirrors.steps])
    obtain ⟨w₄,runs,moves⟩ := ih mirrors₃
    refine ⟨w₄,?_,?_⟩
    · rw [← runs]
      change (storeStep run s.stepID toQueued >>= _).run (exec env) _ = _
      rw [Prog.run_bind,marks]
      rfl
    · have whole := moved.trans moves
      have same : queueItemFor r s now now = queueItemFor run s now now := by
        simp only [queueItemFor,mirrors.ns,mirrors.id]
      rw [moved.item_eq] at whole
      rw [enqueued,foldl_cons,same]
      exact whole

lemma enqueueReadySteps_spec (mirrors : Mirrors w run r) (d : WorkflowDefinition) :
    ∃ w',(enqueueReadySteps d run).run (exec env) w = (.ok (),w') ∧ w.tick < w'.tick ∧
      Releases d r (env.clock w.tick) w w' := by
  have read := silent_moves env mirrors.stored .now rfl rfl rfl rfl
  have same : readySteps d run = readySteps d r := by
    unfold readySteps
    rw [mirrors.steps]
  obtain ⟨w',runs,moves⟩ := enqueueEach_spec env (read.mirrors run mirrors.toNames rfl rfl mirrors.steps)
    (env.clock w.tick) (readySteps d run)
  rw [same] at moves
  refine ⟨w',runs,?_,?_⟩
  · have later := moves.ticks
    exact later
  · rw [read.item_eq] at moves
    exact read.trans moves

lemma recordError_spec (names : Names w run r) (errMsg : String) :
    ∃ w' r',(recordError run errMsg).run (exec env) w = ((),w') ∧ r'.state = r.state ∧
      r'.steps = r.steps ∧ Moves w w' r r' (w.item r) [] := by
  unfold recordError
  split_ifs
  · have moves := rerun_moves env names.stored (.updateRunError run.ns run.id errMsg)
      (fun r => { r with error := errMsg }) rfl rfl rfl
      (fun k => by rw [exec_updateRunError_lookup,names.ns,names.id]) rfl rfl rfl
    exact ⟨_,{ r with error := errMsg },rfl,rfl,rfl,moves⟩
  · exact ⟨w,r,rfl,rfl,rfl,Moves.refl names.stored⟩

lemma finishRun_spec (names : Names w run r) (state : RunState) (errMsg : String) :
    ∃ w' r',(finishRun run state errMsg).run (exec env) w = (.ok (),w') ∧ w.tick < w'.tick ∧
      r'.state = state ∧ r'.steps = r.steps ∧ Moves w w' r r' (w.item r) [] := by
  have read := silent_moves env names.stored .now rfl rfl rfl rfl
  have settled := rerun_moves env read.stored (.updateRunState run.ns run.id state (env.clock w.tick))
    (fun r => Store.Run.withState r state (env.clock w.tick)) (by simp) (by simp) (by simp)
    (fun k => by rw [exec_updateRunState_lookup,names.ns,names.id]) rfl rfl rfl
  have moved := read.trans_quiet settled
  obtain ⟨w₁,r₁,notes,same,steps,noted⟩ := recordError_spec env
    (moved.names names rfl rfl) errMsg
  have told := silent_moves env noted.stored (.emit {
    type := finishEvent state,ns := run.ns,runID := run.id,createdAt := env.clock w.tick
    payload := [("error",.str errMsg)] }) rfl rfl rfl rfl
  have later := (moved.trans_quiet noted).ticks
  refine ⟨_,r₁,?_,by rw [exec_tick]; omega,by simp [same],by simp [steps],
    (moved.trans_quiet noted).trans_quiet told⟩
  change (recordError run errMsg >>= _).run (exec env)
    (exec env (.updateRunState run.ns run.id state (env.clock w.tick)) (exec env .now w).2).2 = _
  rw [Prog.run_bind,notes]
  rfl

def Became (id : String) (target : StepState) (steps steps' : List StepRun) : Prop :=
  ∃ change : StepRun → StepRun, (∀ s, s.stepID = id → (change s).stepID = id) ∧
    (∀ s, (change s).state = target) ∧ steps' = modifyStep id change steps

lemma Became.after {id : String} {first second : StepState} {steps steps' steps'' : List StepRun}
    (before : Became id first steps steps') (after : Became id second steps' steps'') :
    Became id second steps steps'' := by
  obtain ⟨change,keepsID,_,rfl⟩ := before
  obtain ⟨change',keepsID',becomes,rfl⟩ := after
  refine ⟨change' ∘ change,fun s same => keepsID' _ (keepsID s same),fun s => becomes (change s),?_⟩
  exact modifyStep_modifyStep id change change' keepsID steps

lemma readySteps_allDone (d : WorkflowDefinition) (run : Run) (done : allDone run = true) :
    readySteps d run = [] := by
  rw [readySteps,filter_eq_nil_iff]
  intro s member ready
  have finished := all_eq_true.mp done s member
  simp only [isReady,Bool.decide_and,Bool.and_eq_true,decide_eq_true_eq] at ready
  rw [ready.1] at finished
  cases finished

lemma promoteOrEnqueue_spec (mirrors : Mirrors w run r) (d : WorkflowDefinition) :
    ∃ w' r',(promoteOrEnqueue d run).run (exec env) w = (.ok (),w') ∧ w.tick < w'.tick ∧
      r'.state = (if allDone r then .succeeded else r.state) ∧ r'.steps = markQueued (readySteps d r) r.steps ∧
      Moves w w' r r' (enqueued r (env.clock w.tick) (readySteps d r) (w.item r)) [] := by
  have same : allDone run = allDone r := by
    unfold allDone
    rw [mirrors.steps]
  unfold promoteOrEnqueue
  rw [same]
  split_ifs with done
  · obtain ⟨w',r',runs,later,state,steps,moves⟩ := finishRun_spec env mirrors.toNames .succeeded ""
    rw [readySteps_allDone d r done]
    exact ⟨w',r',runs,later,state,steps,moves⟩
  · obtain ⟨w',runs,later,moves⟩ := enqueueReadySteps_spec env mirrors d
    exact ⟨w',r.released d,runs,later,rfl,rfl,moves⟩

lemma completeStep_spec (mirrors : Mirrors w run r) (d : WorkflowDefinition) (lease : QueueLease)
    (output : Object) (ns : lease.item.ns = r.ns) (runID : lease.item.runID = r.id)
    (present : (w.item r lease.item.stepID).isSome) :
    ∃ w' r' steps tick,(completeStep run d lease output).run (exec env) w = (.ok (),w') ∧
      Became lease.item.stepID .succeeded r.steps steps ∧ w.tick ≤ tick ∧ tick < w'.tick ∧
      r'.state = (if allDone { r with steps } then .succeeded else r.state) ∧
      r'.steps = markQueued (readySteps d { r with steps }) steps ∧
      Moves w w' r r' (enqueued r (env.clock tick) (readySteps d { r with steps })
        (update (w.item r) lease.item.stepID none)) [] := by
  have read := silent_moves env mirrors.stored .now rfl rfl rfl rfl
  have removed := requeue_moves env read.stored
    (.completeStep lease.item.ns lease.item.runID lease.item.stepID lease.token) lease.item.stepID none
    (fun q => by rw [exec_completeStep_lookup,ns,runID]) rfl rfl rfl
  have moved := read.trans removed
  obtain ⟨w₁,stores,stored⟩ := storeStep_spec env (moved.mirrors run mirrors.toNames rfl rfl mirrors.steps)
    lease.item.stepID (succeeded (env.clock w.tick) output) (fun _ same => same)
  have told := silent_moves env stored.stored (.emit {
    type := eventStepDone,ns := run.ns,runID := run.id,stepID := lease.item.stepID
    createdAt := env.clock w.tick,attempt := lease.item.attempt }) rfl rfl rfl rfl
  have reached := (moved.trans_quiet stored).trans_quiet told
  have copy := reached.mirrors
    { run with steps := modifyStep lease.item.stepID (succeeded (env.clock w.tick) output) run.steps }
    mirrors.toNames rfl rfl (by rw [mirrors.steps])
  obtain ⟨w',r',runs,later,state,steps,moves⟩ := promoteOrEnqueue_spec env copy d
  have answer : (exec env (.completeStep lease.item.ns lease.item.runID lease.item.stepID lease.token)
      (exec env .now w).2).1 = .ok () :=
    exec_completeStep_ok env _ _ _ _ _ (by rw [ns,runID]; exact present)
  refine ⟨w',r',_,_,?_,⟨succeeded (env.clock w.tick) output,fun _ same => same,fun _ => rfl,rfl⟩,reached.ticks,
    later,state,steps,?_⟩
  · rw [← runs]
    unfold completeStep
    simp only [Prog.call_bind,Prog.done_bind,Prog.run_call]
    rw [answer]
    change (storeStep run lease.item.stepID (succeeded (env.clock w.tick) output) >>= _).run (exec env) _ = _
    rw [Prog.run_bind,stores]
    rfl
  · rw [reached.item_eq] at moves
    exact reached.trans moves

lemma failStep_spec (names : Names w run r) (lease : QueueLease) (err : String)
    (ns : lease.item.ns = r.ns) (runID : lease.item.runID = r.id) :
    ∃ w' r',(failStep run lease err).run (exec env) w = (.ok (),w') ∧ w.tick < w'.tick ∧
      Became lease.item.stepID .failed r.steps r'.steps ∧ r'.state = .failed ∧
      Moves w w' r r' (update (w.item r) lease.item.stepID none) [] := by
  have read := silent_moves env names.stored .now rfl rfl rfl rfl
  have failed := updateStepState_moves env read.stored lease.item.ns lease.item.runID ns runID {
    stepID := lease.item.stepID,state := .failed,error := failMessage err,attempt := lease.item.attempt }
  have told := silent_moves env failed.stored (.emit {
    type := eventStepFailed,ns := run.ns,runID := run.id,stepID := lease.item.stepID
    createdAt := env.clock w.tick, attempt := lease.item.attempt, payload := [("error",.str (failMessage err))] })
    rfl rfl rfl rfl
  have moved := (read.trans_quiet failed).trans_quiet told
  have removed := requeue_moves env moved.stored
    (.completeStep lease.item.ns lease.item.runID lease.item.stepID lease.token) lease.item.stepID none
    (fun q => by rw [exec_completeStep_lookup,ns,runID]) rfl rfl rfl
  rw [moved.item_eq] at removed
  have reached := moved.trans removed
  obtain ⟨w',r',runs,later,state,steps,moves⟩ :=
    finishRun_spec env (reached.names names rfl rfl) .failed (failMessage err)
  refine ⟨w',r',runs,reached.ticks.trans_lt later,?_,state,?_⟩
  · rw [steps]
    exact ⟨fun _ => _,fun _ _ => rfl,fun _ => rfl,rfl⟩
  · rw [reached.item_eq] at moves
    exact reached.trans moves

/-- The handler of step `id` is called while that step is marked as running. -/
structure Started (w : World) (r : Run) (id : String) (call : Invocation) : Prop where
  ns : call.ns = r.ns
  runID : call.runID = r.id
  stepID : call.stepID = id
  definitions : call.store.definitions = w.store.definitions
  marked : ∃ r', call.store.runs.lookup r.key = some r' ∧ r'.workflow = r.workflow ∧
    Became id .running r.steps r'.steps

def Succeeds (result : Except String HandlerResult) : Prop := ∃ output, result = .ok ⟨output,none⟩

/-- Why a step fails: its handler cannot be resolved, or was called in vain. -/
inductive Failing (sd : StepDefinition) (w : World) (r : Run) (id : String) (log : List Invocation) : Prop
  | unresolved (unregistered : env.registered sd.handler = false) (logged : log = [])
  | called (call : Invocation) (started : Started w r id call) (logged : log = [call])
      (answered : ∃ tick handle, call.result = env.execute tick sd.handler handle) (fails : ¬ Succeeds call.result)

lemma not_failing {env : Env} (reliable : env.Reliable) {sd : StepDefinition} {w : World} {r : Run} {id : String}
    {log : List Invocation} (failing : Failing env sd w r id log) : False := by
  cases failing with
  | unresolved unregistered logged =>
    rw [reliable.registered] at unregistered
    cases unregistered
  | called call started logged answered fails =>
    obtain ⟨tick,handle,same⟩ := answered
    obtain ⟨⟨output,error⟩,succeeded,clean⟩ := reliable.succeeds tick sd.handler handle
    cases clean
    exact fails ⟨output,same.trans succeeded⟩

/-- How `processLease` can end for a stored run, a known step and a present item. -/
inductive Processed (d : WorkflowDefinition) (sd : StepDefinition) (w w' : World) (r r' : Run) (id : String)
    (items : String → Option QueueItem) (log : List Invocation) : Prop
  | completed (call : Invocation) (steps : List StepRun) (tick : Nat) (started : Started w r id call)
      (logged : log = [call]) (became : Became id .succeeded r.steps steps) (from_ : w.tick ≤ tick)
      (until_ : tick < w'.tick) (state : r'.state = if allDone { r with steps } then .succeeded else r.state)
      (ready : r'.steps = markQueued (Workflow.readySteps d { r with steps }) steps)
      (queue : items = enqueued r (env.clock tick) (Workflow.readySteps d { r with steps })
        (Function.update (w.item r) id none))
  | failed (failing : Failing env sd w r id log) (became : Became id .failed r.steps r'.steps)
      (state : r'.state = .failed) (queue : items = Function.update (w.item r) id none)

lemma Processed.earlier {d : WorkflowDefinition} {sd : StepDefinition} {w₀ w' : World} {r' : Run} {id : String}
    {items : String → Option QueueItem} {log : List Invocation} (silent : Moves w w₀ r r (w.item r) [])
    (processed : Processed env d sd w₀ w' r r' id items log) : Processed env d sd w w' r r' id items log := by
  have sees := silent.item_eq
  have starts : ∀ call,Started w₀ r id call → Started w r id call := by
    intro call started
    exact ⟨started.ns,started.runID,started.stepID,started.definitions.trans silent.definitions,started.marked⟩
  cases processed with
  | completed call steps tick started logged became from_ until_ state ready queue =>
    exact .completed call steps tick (starts call started) logged became (silent.ticks.trans from_) until_ state
      ready (by rw [queue,sees])
  | failed failing became state queue =>
    refine .failed ?_ became state (by rw [queue,sees])
    cases failing with
    | unresolved unregistered logged => exact .unresolved unregistered logged
    | called call started logged answered fails =>
      exact .called call (starts call started) logged answered fails

lemma runHandler_spec (mirrors : Mirrors w run r) (d : WorkflowDefinition) (sd : StepDefinition)
    (lease : QueueLease) (ns : lease.item.ns = r.ns) (runID : lease.item.runID = r.id)
    (present : (w.item r lease.item.stepID).isSome) :
    ∃ w' r' items log,(runHandler run d sd lease).run (exec env) w = (.ok (),w') ∧
      Processed env d sd w w' r r' lease.item.stepID items log ∧ Moves w w' r r' items log := by
  have read := silent_moves env mirrors.stored .now rfl rfl rfl rfl
  let toRunning : StepRun → StepRun := fun step =>
    { step with state := .running,startedAt := some (env.clock w.tick) }
  obtain ⟨w₁,marks,marked⟩ := storeStep_spec env (read.mirrors run mirrors.toNames rfl rfl mirrors.steps)
    lease.item.stepID toRunning (fun _ same => same)
  have reread := silent_moves env marked.stored .now rfl rfl rfl rfl
  let event : Event := {
    type := eventStepStarted,ns := run.ns,runID := run.id,stepID := lease.item.stepID
    createdAt := env.clock w₁.tick,attempt := lease.item.attempt }
  have told := silent_moves env reread.stored (.emit event) rfl rfl rfl rfl
  have ready := ((read.trans_quiet marked).trans_quiet reread).trans_quiet told
  let copy : Run := { run with steps := modifyStep lease.item.stepID toRunning run.steps }
  let handle : Handle := {
    runID := run.id,stepID := lease.item.stepID,runInput := run.input.payload,deadline := sd.timeout }
  have continues : ∀ w₂,w₂ = (exec env (.emit event) (exec env .now w₁).2).2 →
      (runHandler run d sd lease).run (exec env) w =
        (settleResult copy d lease (env.execute w₂.tick sd.handler handle)).run (exec env)
          (exec env (.execute sd.handler copy handle) w₂).2 := by
    intro w₂ same
    subst same
    change (storeStep run lease.item.stepID toRunning >>= _).run (exec env) _ = _
    rw [Prog.run_bind,marks]
    rfl
  obtain ⟨w₂,here⟩ : ∃ w₂,w₂ = (exec env (.emit event) (exec env .now w₁).2).2 := ⟨_,rfl⟩
  rw [continues w₂ here]
  rw [← here] at ready
  have called := execute_moves env ready.stored sd.handler copy handle
  have reached := ready.trans_quiet called
  have follows := reached.mirrors copy mirrors.toNames rfl rfl (by simp only [copy,mirrors.steps])
  have running : Became lease.item.stepID .running r.steps (modifyStep lease.item.stepID toRunning r.steps) :=
    ⟨toRunning,fun _ same => same,fun _ => rfl,rfl⟩
  have started : Started w r lease.item.stepID
      ⟨copy.ns,copy.id,handle.stepID,w₂.store,env.execute w₂.tick sd.handler handle⟩ :=
    ⟨mirrors.ns,mirrors.id,rfl,ready.definitions,
      { r with steps := modifyStep lease.item.stepID toRunning r.steps },ready.stored,rfl,running⟩
  have sees := reached.item_eq
  have fails : ∀ err,¬ Succeeds (env.execute w₂.tick sd.handler handle) →
      ∃ w' r' items log,(failStep copy lease err).run (exec env)
          (exec env (.execute sd.handler copy handle) w₂).2 = (.ok (),w') ∧
        Processed env d sd w w' r r' lease.item.stepID items log ∧ Moves w w' r r' items log := by
    intro err unsuccessful
    obtain ⟨w',r',runs,_,became,state,moves⟩ := failStep_spec env follows.toNames lease err ns runID
    rw [sees] at moves
    exact ⟨w',r',_,_,runs,.failed (.called _ started rfl ⟨_,_,rfl⟩ unsuccessful) (running.after became) state rfl,
      reached.trans moves⟩
  cases answer : env.execute w₂.tick sd.handler handle with
  | error err => exact fails err (by simp [Succeeds,answer])
  | ok result =>
    obtain ⟨output,failure⟩ := result
    cases failure with
    | some err => exact fails err (by simp [Succeeds,answer])
    | none =>
      obtain ⟨w',r',steps,tick,runs,became,from_,until_,state,marked',moves⟩ :=
        completeStep_spec env follows d lease output ns runID (by rw [sees]; exact present)
      rw [sees] at moves
      exact ⟨w',r',_,_,runs,.completed _ steps tick started rfl (running.after became)
        (reached.ticks.trans from_) until_ state marked' rfl,reached.trans moves⟩

lemma processLease_spec (d : WorkflowDefinition) (sd : StepDefinition) (lease : QueueLease)
    (stored : w.store.runs.lookup r.key = some r) (defined : w.store.definitions.lookup r.workflow.key = some d)
    (named : findStepDef d lease.item.stepID = some sd) (ns : lease.item.ns = r.ns)
    (runID : lease.item.runID = r.id) (present : (w.item r lease.item.stepID).isSome) :
    ∃ w' r' items log,(processLease env lease).run (exec env) w = (.ok (),w') ∧
      Processed env d sd w w' r r' lease.item.stepID items log ∧ Moves w w' r r' items log := by
  have fetched := silent_moves env stored (.getRun lease.item.ns lease.item.runID) rfl rfl rfl rfl
  have looked := silent_moves env fetched.stored (.getDefinition r.workflow) rfl rfl rfl rfl
  have opened := fetched.trans_quiet looked
  have copy : Mirrors w r r := ⟨⟨stored,rfl,rfl⟩,rfl⟩
  have answer : (exec env (.getRun lease.item.ns lease.item.runID) w).1 = .ok r := by
    have found : w.store.runs.lookup (runKey r.ns r.id) = some r := stored
    simp only [exec,Store.getRun,ns,runID,found]
  have definition : (exec env (.getDefinition r.workflow)
      (exec env (.getRun lease.item.ns lease.item.runID) w).2).1 = .ok d := by
    have found : (exec env (.getRun lease.item.ns lease.item.runID) w).2.store.definitions.lookup
        r.workflow.key = some d := defined
    simp only [exec,Store.getDefinition] at found ⊢
    rw [found]
  unfold processLease executeLease
  simp only [Prog.call_bind,Prog.done_bind,Prog.run_call]
  rw [answer]
  simp only [Prog.run_call]
  rw [definition]
  simp only [named]
  split_ifs with registered
  · obtain ⟨w',r',items,log,runs,processed,moves⟩ := runHandler_spec env
      (opened.mirrors _ copy.toNames rfl rfl rfl) d sd lease ns runID (by rw [opened.item_eq]; exact present)
    exact ⟨w',r',items,log,runs,processed.earlier env opened,opened.trans moves⟩
  · have unregistered : env.registered sd.handler = false := by simpa using registered
    obtain ⟨w',r',runs,later,became,state,moves⟩ := failStep_spec env
      (opened.names copy.toNames rfl rfl) lease (noHandler env sd.handler) ns runID
    exact ⟨w',r',_,_,runs,.failed (.unresolved unregistered rfl) became state rfl,opened.trans moves⟩

end Engine

end Tempest
