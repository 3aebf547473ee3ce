import Tempest.Engine

/-! What each atomic operation does to each table of the store, as equations
about lookups that hold whether or not the operation succeeds. -/
namespace Tempest
open Interaction Filing

namespace Op

def touchesRuns : Op → Bool
  | .createRun _ | .updateRunState .. | .updateRunError .. | .updateStepState .. => true
  | _ => false

def touchesQueue : Op → Bool
  | .enqueue _ | .dequeueAny .. | .completeStep .. => true
  | _ => false

def touchesDefinitions : Op → Bool
  | .createDefinition _ => true
  | _ => false

def isExecute : Op → Bool
  | .execute .. => true
  | _ => false

/-- The operations on the run filed under `k`, on its steps and on its queue
items, of which only the one under `q` is completed, together with everything
that only reads. -/
def OnRun (k q : String) : Op → Prop
  | .createDefinition _ | .createRun _ | .dequeueAny .. => False
  | .updateRunState ns id _ _ | .updateRunError ns id _ | .updateStepState ns id _ => runKey ns id = k
  | .completeStep ns id stepID _ => runKey ns id = k ∧ queueKey ns id stepID = q
  | .enqueue item => runKey item.ns item.runID = k
  | .execute _ run _ => run.key = k
  | _ => True

end Op

def Run.putStep (step : StepRun) (r : Run) : Run :=
  { r with steps := (replaceStep step r.steps).getD r.steps }

variable (step : StepRun) (r : Run)

@[simp] lemma Run.putStep_key : (r.putStep step).key = r.key := rfl

lemma write_frame {β : Sort _} (f : Store → β) (w : World) (result : Except Classified Store)
    (keeps : ∀ s,result = .ok s → f s = f w.store) : f (w.write result).2.store = f w.store := by
  cases result with
  | error e => rfl
  | ok s => exact keeps s rfl

variable (env : Env) (w : World) (op : Op) (ns : Namespace)

/-- An operation leaves alone what none of the tables that it touches is part of. -/
lemma exec_frame {β : Type} (f : Store → β)
    (runs : op.touchesRuns = true → ∀ s (runs : Table Run.key),f { s with runs } = f s)
    (queue : op.touchesQueue = true → ∀ s (queue : Table QueueItem.key),f { s with queue } = f s)
    (definitions : op.touchesDefinitions = true →
      ∀ s (definitions : Table WorkflowDefinition.key),f { s with definitions } = f s) :
    f (exec env op w).2.store = f w.store := by
  cases op with
  | createRun r => exact write_frame f w _ (fun s ok => by rw [(Store.createRun_ok _ _ _ ok).2,runs rfl])
  | updateRunState ns id target stamp
  | updateRunError ns id errMsg
  | updateStepState ns id step =>
    refine write_frame f w _ (fun s ok => ?_)
    obtain ⟨r,r',_,_,rfl⟩ := Store.updateRun_ok _ _ _ _ _ ok
    exact runs rfl _ _
  | enqueue item | dequeueAny limit now => exact queue rfl _ _
  | completeStep ns runID stepID token =>
    exact write_frame f w _ (fun s ok => by rw [(Store.completeStep_ok _ _ _ _ _ _ ok).2,queue rfl])
  | createDefinition d =>
    exact write_frame f w _ (fun s ok => by rw [(Store.createDefinition_ok _ _ _ ok).2,definitions rfl])
  | emit ev => simp only [exec]; split <;> rfl
  | _ => rfl

lemma exec_runs (quiet : op.touchesRuns = false) : (exec env op w).2.store.runs = w.store.runs :=
  exec_frame env w op Store.runs (by simp [quiet]) (fun _ _ _ => rfl) (fun _ _ _ => rfl)

lemma exec_queue (quiet : op.touchesQueue = false) : (exec env op w).2.store.queue = w.store.queue :=
  exec_frame env w op Store.queue (fun _ _ _ => rfl) (by simp [quiet]) (fun _ _ _ => rfl)

lemma exec_definitions (quiet : op.touchesDefinitions = false) :
    (exec env op w).2.store.definitions = w.store.definitions :=
  exec_frame env w op Store.definitions (fun _ _ _ => rfl) (fun _ _ _ => rfl) (by simp [quiet])

@[simp] lemma write_invocations (result : Except Classified Store) :
    (w.write result).2.invocations = w.invocations := by
  cases result <;> rfl

lemma exec_invocations (quiet : op.isExecute = false) : (exec env op w).2.invocations = w.invocations := by
  cases op with
  | execute handler run handle => cases quiet
  | emit ev => simp only [exec]; split <;> rfl
  | _ => first | rfl | exact write_invocations w _

/-! Lookups of runs. -/

variable (id : String)

private lemma updateRun_lookup (change : Run → Except Classified Run)
    (total : Run → Run) (sameKey : ∀ r,(total r).key = r.key)
    (agree : ∀ r,change r = .ok (total r) ∨ (∃ e,change r = .error e) ∧ total r = r) (k : String) :
    (w.write (w.store.updateRun ns id change)).2.store.runs.lookup k =
      if k = runKey ns id then (w.store.runs.lookup k).map total else w.store.runs.lookup k := by
  unfold Store.updateRun
  cases found : w.store.runs.lookup (runKey ns id) with
  | none =>
    simp only [World.write,World.advance]
    split_ifs with same
    · rw [same,found]; rfl
    · rfl
  | some r =>
    have filed := w.store.runs.lookup_key found
    rcases agree r with changed | ⟨⟨e,failed⟩,unchanged⟩
    · simp only [changed,Except.map,World.write,Table.lookup_insert,sameKey,filed]
      split_ifs with same
      · rw [same,found]; rfl
      · rfl
    · simp only [failed,Except.map,World.write,World.advance]
      split_ifs with same
      · rw [same,found,Option.map_some,unchanged]
      · rfl

lemma exec_updateRunState_lookup (target : RunState) (stamp : Time) (k : String) :
    (exec env (.updateRunState ns id target stamp) w).2.store.runs.lookup k =
      if k = runKey ns id then (w.store.runs.lookup k).map (fun r => Store.Run.withState r target stamp)
      else w.store.runs.lookup k :=
  updateRun_lookup w ns id _ _ (fun r => Store.withState_key r target stamp) (fun _ => .inl rfl) k

lemma exec_updateRunError_lookup (id errMsg : String) (k : String) :
    (exec env (.updateRunError ns id errMsg) w).2.store.runs.lookup k =
      if k = runKey ns id then (w.store.runs.lookup k).map (fun r => { r with error := errMsg })
      else w.store.runs.lookup k :=
  updateRun_lookup w ns id _ (fun r => { r with error := errMsg }) (fun _ => rfl) (fun _ => .inl rfl) k

lemma exec_updateStepState_lookup (step : StepRun) (k : String) :
    (exec env (.updateStepState ns id step) w).2.store.runs.lookup k =
      if k = runKey ns id then (w.store.runs.lookup k).map (Run.putStep step) else w.store.runs.lookup k := by
  refine updateRun_lookup w ns id _ _ (fun r => r.putStep_key step) (fun r => ?_) k
  cases replaced : replaceStep step r.steps with
  | none => exact .inr ⟨⟨_,rfl⟩,by simp [Run.putStep,replaced]⟩
  | some steps => exact .inl (by simp [Run.putStep,replaced])

/-! Lookups of queue items. -/

lemma exec_enqueue_lookup (item : QueueItem) (k : String) : (exec env (.enqueue item) w).2.store.queue.lookup k =
      if k = item.key then some item else w.store.queue.lookup k := by
  simp only [exec,World.write,Store.enqueue,Table.lookup_insert]

lemma exec_completeStep_lookup (runID stepID token k : String) :
    (exec env (.completeStep ns runID stepID token) w).2.store.queue.lookup k =
      if k = queueKey ns runID stepID then none else w.store.queue.lookup k := by
  simp only [exec,Store.completeStep]
  cases found : w.store.queue.lookup (queueKey ns runID stepID) with
  | some item => simp [World.write,Table.lookup_erase]
  | none =>
    simp only [World.write,World.advance]
    split_ifs with same
    · rw [same,found]
    · rfl

lemma exec_completeStep_ok (runID stepID token : String)
    (present : (w.store.queue.lookup (queueKey ns runID stepID)).isSome) :
    (exec env (.completeStep ns runID stepID token) w).1 = .ok () := by
  obtain ⟨item,found⟩ := Option.isSome_iff_exists.mp present
  simp only [exec,Store.completeStep,found,World.write]

/-! The engine's procedures on a copy of a run touch that run only. -/
namespace Engine

lemma storeStep_bind_uses {α : Type} {allowed : Op → Prop} (run : Run) (id : String)
    (change : StepRun → StepRun) (rest : Run → M α)
    (updates : ∀ step,allowed (.updateStepState run.ns run.id step))
    (continues : ∀ steps,(rest { run with steps }).Uses allowed) :
    (storeStep run id change >>= rest).Uses allowed := by
  unfold storeStep
  cases changeStep id change run.steps with
  | none => exact continues run.steps
  | some changed => exact ⟨updates changed.1,fun _ => continues changed.2⟩

variable (run : Run) (q : String)

lemma enqueueEach_uses (now : Time) (ready : List StepRun) :
    (enqueueEach now run ready).Uses (Op.OnRun run.key q) := by
  induction ready generalizing run with
  | nil => exact trivial
  | cons s rest ih =>
    refine ⟨rfl,fun answer => ?_⟩
    cases answer with
    | error e => exact trivial
    | ok _ =>
      exact storeStep_bind_uses run _ _ _ (fun _ => rfl) (fun steps => ⟨trivial,fun _ => ih { run with steps }⟩)

variable (d : WorkflowDefinition)

lemma enqueueReadySteps_uses : (enqueueReadySteps d run).Uses (Op.OnRun run.key q) :=
  ⟨trivial,fun now => enqueueEach_uses run q now _⟩

lemma finishRun_uses (state : RunState) (errMsg : String) :
    (finishRun run state errMsg).Uses (Op.OnRun run.key q) := by
  refine ⟨trivial,fun now => ⟨rfl,fun _ => ?_⟩⟩
  have noted : (recordError run errMsg).Uses (Op.OnRun run.key q) := by
    unfold recordError
    split_ifs
    · exact ⟨rfl,fun _ => trivial⟩
    · exact trivial
  exact noted.bind (fun _ => ⟨trivial,fun _ => trivial⟩)

variable (lease : QueueLease)

lemma completeStep_uses (output : Object) (same : runKey lease.item.ns lease.item.runID = run.key) :
    (completeStep run d lease output).Uses (Op.OnRun run.key lease.item.key) := by
  refine ⟨trivial,fun now => ⟨⟨same,rfl⟩,fun answer => ?_⟩⟩
  cases answer with
  | error e => exact trivial
  | ok _ =>
    refine storeStep_bind_uses run _ _ _ (fun _ => rfl) (fun steps => ⟨trivial,fun _ => ?_⟩)
    unfold promoteOrEnqueue
    split_ifs
    · exact finishRun_uses { run with steps } _ .succeeded ""
    · exact enqueueReadySteps_uses { run with steps } _ d

lemma failStep_uses (err : String) (same : runKey lease.item.ns lease.item.runID = run.key) :
    (failStep run lease err).Uses (Op.OnRun run.key lease.item.key) :=
  ⟨trivial,fun _ => ⟨same,fun _ => ⟨trivial,fun _ => ⟨⟨same,rfl⟩,fun _ => finishRun_uses run _ .failed _⟩⟩⟩⟩

lemma runHandler_uses (sd : StepDefinition) (lease : QueueLease)
    (same : runKey lease.item.ns lease.item.runID = run.key) :
    (runHandler run d sd lease).Uses (Op.OnRun run.key lease.item.key) := by
  refine ⟨trivial,fun started => ?_⟩
  refine storeStep_bind_uses run _ _ _ (fun _ => rfl) (fun steps => ?_)
  refine ⟨trivial,fun now => ⟨trivial,fun _ => ⟨rfl,fun result => ?_⟩⟩⟩
  dsimp only [Prog.bind]
  unfold settleResult
  cases result with
  | error err => exact failStep_uses { run with steps } lease err same
  | ok result =>
    dsimp only
    cases result.error with
    | some err => exact failStep_uses { run with steps } lease err same
    | none => exact completeStep_uses { run with steps } d lease result.output same

lemma processLease_run (env : Env) (lease : QueueLease) (w : World) : ∃ rest : M (Except Failure Unit),
      (processLease env lease).run (exec env) w = rest.run (exec env) w.advance ∧
        rest.Uses (Op.OnRun (runKey lease.item.ns lease.item.runID) lease.item.key) := by
  refine ⟨_,rfl,?_⟩
  simp only [exec,Store.getRun]
  cases found : w.store.runs.lookup (runKey lease.item.ns lease.item.runID) with
  | none => exact trivial
  | some run =>
    have same := w.store.runs.lookup_key found
    rw [← same]
    refine ⟨trivial,fun definition => ?_⟩
    cases definition with
    | error e => exact trivial
    | ok d =>
      dsimp only [Prog.bind]
      cases findStepDef d lease.item.stepID with
      | none => exact trivial
      | some sd =>
        dsimp only
        split_ifs
        · exact runHandler_uses run d sd lease same.symm
        · exact failStep_uses run lease _ same.symm

/-- What work on another run leaves alone: the run under `k`, its items and, apart from
the item under `q`, that something is queued under a key. -/
structure Spared (k q : String) (w w' : World) : Prop where
  runs : w'.store.runs.lookup k = w.store.runs.lookup k
  definitions : w'.store.definitions = w.store.definitions
  queued : ∀ q' item, w'.store.queue.lookup q' = some item → runKey item.ns item.runID = k →
    w.store.queue.lookup q' = some item
  present : ∀ q', q' ≠ q → (w.store.queue.lookup q').isSome → (w'.store.queue.lookup q').isSome

section Spared

variable {k q other : String} {w w' w'' : World}

lemma Spared.of_queue (runs : w'.store.runs.lookup k = w.store.runs.lookup k)
    (definitions : w'.store.definitions = w.store.definitions) (queue : w'.store.queue = w.store.queue) :
    Spared k q w w' := by
  refine ⟨runs,definitions,?_,?_⟩
  all_goals rw [queue]
  · exact fun _ _ found _ => found
  · exact fun _ _ there => there

lemma Spared.trans (first : Spared k q w w') (second : Spared k q w' w'') : Spared k q w w'' where
  runs := second.runs.trans first.runs
  definitions := second.definitions.trans first.definitions
  queued := fun q' item found named => first.queued q' item (second.queued q' item found named) named
  present := fun q' different there => second.present q' different (first.present q' different there)

lemma exec_spared (env : Env) (w : World) (different : other ≠ k) (op : Op) (on : op.OnRun other q) :
    Spared k q w (exec env op w).2 := by
  have apart : ∀ ns id,runKey ns id = other → k ≠ runKey ns id := by
    intro ns id same equal
    exact different (same.symm.trans equal.symm)
  cases op with
  | createDefinition _ | createRun _ | dequeueAny _ _ => exact on.elim
  | updateRunState ns id target stamp =>
    exact .of_queue (by rw [exec_updateRunState_lookup,if_neg (apart ns id on)]) (exec_definitions env w _ rfl)
      (exec_queue env w _ rfl)
  | updateRunError ns id errMsg =>
    exact .of_queue (by rw [exec_updateRunError_lookup,if_neg (apart ns id on)]) (exec_definitions env w _ rfl)
      (exec_queue env w _ rfl)
  | updateStepState ns id step =>
    exact .of_queue (by rw [exec_updateStepState_lookup,if_neg (apart ns id on)]) (exec_definitions env w _ rfl)
      (exec_queue env w _ rfl)
  | enqueue item =>
    refine ⟨rfl,rfl,?_,?_⟩
    · intro q' new found named
      rw [exec_enqueue_lookup] at found
      split_ifs at found
      · cases found
        exact absurd named.symm (apart _ _ on)
      · exact found
    · intro q' _ there
      rw [exec_enqueue_lookup]
      split_ifs
      · rfl
      · exact there
  | completeStep ns id stepID token =>
    refine ⟨by rw [exec_runs env w _ rfl],exec_definitions env w _ rfl,?_,?_⟩
    · intro q' item found _
      rw [exec_completeStep_lookup] at found
      split_ifs at found
      exact found
    · intro q' unlike there
      rw [exec_completeStep_lookup,on.2,if_neg unlike]
      exact there
  | _ => exact .of_queue (by rw [exec_runs env w _ rfl]) (exec_definitions env w _ rfl) (exec_queue env w _ rfl)

lemma run_spared (env : Env) {α : Type} {p : M α} (uses : p.Uses (Op.OnRun other q)) (different : other ≠ k) (w : World) :
    Spared k q w (p.run (exec env) w).2 :=
  uses.run_keeps (exec env) (fun op w₁ on spared => spared.trans (exec_spared env w₁ different op on)) w
    (.of_queue rfl rfl rfl)

lemma processLease_spared (env : Env) (w : World) (lease : QueueLease) (different : runKey lease.item.ns lease.item.runID ≠ k) :
    Spared k lease.item.key w ((processLease env lease).run (exec env) w).2 := by
  obtain ⟨rest,continues,uses⟩ := processLease_run env lease w
  have start : Spared k lease.item.key w w.advance := .of_queue rfl rfl rfl
  rw [continues]
  exact start.trans (run_spared env uses different w.advance)

end Spared

/-- A submission that gets as far as creating its run: the definition it found,
the run, and the world in which the ready steps are enqueued. -/
structure Created (input : RunInput) (w w' : World) (d : WorkflowDefinition) (run : Run) (now : Time) :
    Prop where
  named : w.store.getDefinitionByName (env.order (w.tick + 1)) input.workflow.ns input.workflow.name = .ok d
  fresh : ∃ unixNano, Workflow.newRun d { input with workflow := d.id } now unixNano = .ok run
  absent : w.store.runs.lookup run.key = none
  store : w'.store = { w.store with
    runs := (w.store.runs.insert run).insert (Store.Run.withState run .queued now) }
  invocations : w'.invocations = w.invocations

lemma submit_created (env : Env) (input : RunInput) (w : World) (d : WorkflowDefinition) (run : Run)
    (named : w.store.getDefinitionByName (env.order (w.tick + 1)) input.workflow.ns input.workflow.name = .ok d)
    (fresh : Workflow.newRun d { input with workflow := d.id } (env.clock w.tick) (env.wall (w.tick + 2)) = .ok run)
    (absent : w.store.runs.lookup run.key = none) : ∃ w',Created env input w w' d run (env.clock w.tick) ∧
      (submit input).run (exec env) w =
        (enqueueReadySteps d run >>= announce (env.clock w.tick) d run).run (exec env) w' := by
  have created : w.store.createRun run = .ok { w.store with runs := w.store.runs.insert run } := by
    simp [Store.createRun,absent]
  have queued : Store.updateRunState { w.store with runs := w.store.runs.insert run } run.ns run.id
      .queued (env.clock w.tick) = .ok { w.store with
        runs := (w.store.runs.insert run).insert (Store.Run.withState run .queued (env.clock w.tick)) } := by
    have found : (w.store.runs.insert run).lookup (runKey run.ns run.id) = some run :=
      Filing.Table.lookup_insert_self _ run
    simp [Store.updateRunState,Store.updateRun,found,Except.map]
  refine ⟨{ w with
    tick := w.tick + 5
    store := { w.store with runs :=
      (w.store.runs.insert run).insert (Store.Run.withState run .queued (env.clock w.tick)) } },
    ⟨named,⟨_,fresh⟩,absent,rfl,rfl⟩,?_⟩
  unfold submit
  simp only [Prog.call_bind,Prog.done_bind,Prog.run_call,exec,World.advance,named,fresh,created,World.write,queued]

lemma submit_run (env : Env) (input : RunInput) (w : World) :
    (∃ e w',(submit input).run (exec env) w = (.error e,w') ∧ w'.store = w.store ∧
      w'.invocations = w.invocations) ∨ ∃ d run now w',Created env input w w' d run now ∧
      (submit input).run (exec env) w = (enqueueReadySteps d run >>= announce now d run).run (exec env) w' := by
  cases named : w.store.getDefinitionByName (env.order (w.tick + 1)) input.workflow.ns input.workflow.name with
  | error e =>
    refine Or.inl ⟨.err e,w.advance.advance,?_,rfl,rfl⟩
    unfold submit
    simp only [Prog.call_bind,Prog.done_bind,Prog.run_call,exec,World.advance,named]
    rfl
  | ok d =>
    cases fresh : Workflow.newRun d { input with workflow := d.id } (env.clock w.tick) (env.wall (w.tick + 2)) with
    | error e =>
      refine Or.inl ⟨.err e,w.advance.advance.advance,?_,rfl,rfl⟩
      unfold submit
      simp only [Prog.call_bind,Prog.done_bind,Prog.run_call,exec,World.advance,named,fresh]
      rfl
    | ok run =>
      cases absent : w.store.runs.lookup run.key with
      | some old =>
        have refused : w.store.createRun run = .error (.of .alreadyExists) := by
          simp [Store.createRun,absent]
        refine Or.inl ⟨.err (.of .alreadyExists),w.advance.advance.advance.advance,?_,rfl,rfl⟩
        unfold submit
        simp only [Prog.call_bind,Prog.done_bind,Prog.run_call,exec,World.advance,named,fresh,refused,World.write]
        rfl
      | none =>
        obtain ⟨w',created,continues⟩ := submit_created env input w d run named fresh absent
        exact .inr ⟨d,run,env.clock w.tick,w',created,continues⟩

end Engine

end Tempest
