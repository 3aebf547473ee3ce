import Tempest.Consistent

/-! The calls of the engine in a consistent world: `Submit`, `Cancel` and
`ProcessLeases` each keep it consistent. -/
open List
namespace Tempest
open Interaction Filing Progress

/-- Only the times and attempts of the queue items may differ. -/
lemma Consistent.frame {w w' : World} (consistent : Consistent w) (runs : w'.store.runs = w.store.runs)
    (definitions : w'.store.definitions = w.store.definitions) (invocations : w'.invocations = w.invocations)
    (queue : ∀ q,(w'.store.queue.lookup q).map QueueItem.address = (w.store.queue.lookup q).map QueueItem.address) :
    Consistent w' := by
  refine ⟨⟨?_,?_,?_⟩,?_⟩
  · intro q item found
    obtain ⟨old,before,ns,runID,stepID⟩ := found_before (queue q) found
    obtain ⟨r,stored,owned⟩ := consistent.owned q old before
    rw [runs]
    exact ⟨r,stored,by rwa [ns,runID,stepID] at owned⟩
  · rw [runs]
    exact consistent.separate
  · rw [runs,invocations]
    exact consistent.logged
  · intro r stored
    rw [runs] at stored
    obtain ⟨d,defined,tracked⟩ := consistent.tracked r stored
    refine ⟨d,by rw [definitions]; exact defined,tracked.congr ?_ ?_⟩
    · intro id _
      have same := congrArg Option.isSome (queue (queueKey r.ns r.id id))
      simpa [World.item] using same
    · intro id _
      unfold World.executions
      rw [invocations]

lemma Consistent.congr {w w' : World} (consistent : Consistent w) (store : w'.store = w.store)
    (invocations : w'.invocations = w.invocations) : Consistent w' :=
  consistent.frame (by rw [store]) (by rw [store]) invocations (by simp [store])

lemma Consistent.finish {w w' : World} {r r' : Run} (consistent : Consistent w)
    (stored : w.store.runs.lookup r.key = some r) (moves : Moves w w' r r' (w.item r) [])
    (steps : r'.steps = r.steps) (terminal : r'.state.isTerminal = true) : Consistent w' := by
  obtain ⟨d,defined,tracked⟩ := consistent.tracked r stored
  have ids : r'.ids = r.ids := by rw [Run.ids,steps]; rfl
  have status : r'.status = r.status := by rw [Run.status,steps]; rfl
  have count := fun id => Engine.executions_moves moves id
  refine consistent.toOwned.move stored defined
    (fun other held _ => consistent.tracked other held) moves ⟨ids,?_,fun _ _ => rfl,?_,?_⟩
  · refine {
      ids := ids.trans tracked.ids,distinct := by rw [ids]; exact tracked.distinct
      sound := by rw [status]; exact tracked.sound
      queued := ?_,unfinished := ?_,fresh := ?_,once := ?_,ran := ?_ }
    · rw [ids,status,moves.item_eq]
      exact tracked.queued
    · rw [terminal]
      intro wrong
      cases wrong
    · simp only [ids,status,count]
      exact tracked.fresh
    · simp only [ids,count]
      exact tracked.once
    · simp only [ids,status,count]
      exact tracked.ran
  · intro id known item found
    exact consistent.item_identity stored id known item found
  · intro call inside
    cases inside

variable {now : Time}

variable {w w' : World} {leases : List QueueLease} {taken : List QueueItem}

lemma Dequeued.consistent (dequeued : Dequeued now w w' leases taken) (consistent : Consistent w) : Consistent w' :=
  consistent.frame dequeued.runs dequeued.definitions dequeued.invocations dequeued.lookup_same

namespace Engine

variable (env : Env)

lemma processLeases_batch (w : World) (consistent : Consistent w) :
    ∃ w₁ w' leases taken,(processLeases env).run (exec env) w = (.ok (),w') ∧
      Dequeued (env.clock w.tick) w w₁ leases taken ∧ Consistent w₁ ∧ Batch env leases w₁ w' := by
  obtain ⟨w₁,leases,taken,runs,dequeued⟩ := dequeueLeases_run env w
  have consistent₁ := dequeued.consistent consistent
  obtain ⟨w',others,batch⟩ := processEach_batch env leases w₁ consistent₁ dequeued.leased dequeued.lease_keys
  refine ⟨w₁,w',leases,taken,?_,dequeued,consistent₁,batch⟩
  unfold processLeases
  rw [Prog.run_bind,runs]
  exact others

lemma cancel_spec (ns : Namespace) (id : String) (w : World) :
    (((cancel ns id).run (exec env) w).2.store = w.store ∧
      ((cancel ns id).run (exec env) w).2.invocations = w.invocations) ∨
    ∃ r r',w.store.runs.lookup r.key = some r ∧ r'.steps = r.steps ∧ r'.state = .cancelled ∧
      Moves w ((cancel ns id).run (exec env) w).2 r r' (w.item r) [] := by
  unfold cancel
  simp only [Prog.call_bind,Prog.done_bind,Prog.run_call,exec,Store.getRun]
  cases found : w.store.runs.lookup (runKey ns id) with
  | none => exact .inl ⟨rfl,rfl⟩
  | some run =>
    dsimp only
    split_ifs with finished
    · exact .inl ⟨rfl,rfl⟩
    · have stored : w.store.runs.lookup run.key = some run := by rw [w.store.runs.lookup_key found,found]
      have fetched := silent_moves env stored (.getRun ns id) rfl rfl rfl rfl
      obtain ⟨w',r',runs,_,state,steps,moves⟩ := finishRun_spec env
        (⟨stored,rfl,rfl⟩ : Names w.advance run run) .cancelled ""
      rw [runs]
      exact .inr ⟨run,r',stored,steps,state,fetched.trans_quiet moves⟩

/-- The run that a submission has created, before its ready steps are enqueued. -/
structure Submitted (w w₀ : World) (d : WorkflowDefinition) (r : Run) : Prop where
  defined : w.store.definitions.lookup d.id.key = some d
  nonempty : d.steps ≠ []
  absent : w.store.runs.lookup r.key = none
  id : ∃ unixNano, r.id = Workflow.runID unixNano
  ns : r.ns = d.id.ns
  workflow : r.workflow = d.id
  state : r.state = .queued
  steps : r.steps = d.steps.map (fun sd => { stepID := sd.id, state := .pending })
  runs : ∀ k, w₀.store.runs.lookup k = if k = r.key then some r else w.store.runs.lookup k
  queue : w₀.store.queue = w.store.queue
  definitions : w₀.store.definitions = w.store.definitions
  invocations : w₀.invocations = w.invocations

lemma Submitted.ids {w w₀ : World} {d : WorkflowDefinition} {r : Run} (submitted : Submitted w w₀ d r) :
    r.ids = d.steps.map StepDefinition.id := by
  rw [Run.ids,submitted.steps,map_map]
  rfl

lemma Created.spec {input : RunInput} {w w₀ : World} {d : WorkflowDefinition} {run : Run}
    (created : Created env input w w₀ d run now) (continues : (submit input).run (exec env) w =
      (enqueueReadySteps d run >>= announce now d run).run (exec env) w₀) :
    ∃ r w',r.id = run.id ∧ (submit input).run (exec env) w = (.ok r.id,w') ∧ Submitted w w₀ d r ∧ w₀.tick < w'.tick ∧
      Releases d r (env.clock w₀.tick) w₀ w' := by
  obtain ⟨unixNano,fresh⟩ := created.fresh
  obtain ⟨nonempty,fields⟩ := Workflow.newRun_ok d _ now unixNano run fresh
  obtain ⟨defined,_⟩ := Store.getDefinitionByName_ok _ _ _ _ d created.named
  let r := Store.Run.withState run .queued now
  have runs : ∀ k,w₀.store.runs.lookup k = if k = r.key then some r else w.store.runs.lookup k := by
    intro k
    rw [created.store]
    rw [Table.lookup_insert,Table.lookup_insert,Store.withState_key]
    split_ifs with same
    all_goals rfl
  have mirrors : Mirrors w₀ run r :=
    ⟨⟨by rw [runs,if_pos rfl],by simp [r],by simp [r]⟩,by simp [r]⟩
  obtain ⟨w₁,enqueues,later,moves⟩ := enqueueReadySteps_spec env mirrors d
  have told := silent_moves env moves.stored (.emit {
    type := eventRunCreated,ns := run.ns,runID := run.id,createdAt := now
    payload := [("workflow",.str d.id.name),("version",.int d.id.version)] }) rfl rfl rfl rfl
  refine ⟨r,_,Store.withState_id _ _ _,?_,?_,?_,moves.trans_quiet told⟩
  · rw [continues,Prog.run_bind,enqueues]
    simp only [announce,r,Store.withState_id]
    rfl
  · exact {
      defined := defined,nonempty := nonempty,absent := by rw [Store.withState_key]; exact created.absent
      id := ⟨unixNano,by rw [Store.withState_id,fields]⟩,ns := by rw [Store.withState_ns,fields]
      workflow := by rw [Store.withState_workflow,fields],state := Store.withState_state _ _ _
      steps := by rw [Store.withState_steps,fields],runs := runs
      queue := by rw [created.store],definitions := by rw [created.store]
      invocations := created.invocations }
  · rw [exec_tick]
    omega

lemma submit_spec (input : RunInput) (w : World) :
    (∃ e w',(submit input).run (exec env) w = (.error e,w') ∧ w'.store = w.store ∧
      w'.invocations = w.invocations) ∨
    ∃ d r w₀ w',(submit input).run (exec env) w = (.ok r.id,w') ∧ Submitted w w₀ d r ∧
      w.store.getDefinitionByName (env.order (w.tick + 1)) input.workflow.ns input.workflow.name = .ok d ∧
      w₀.tick < w'.tick ∧ Releases d r (env.clock w₀.tick) w₀ w' := by
  rcases submit_run env input w with refused | ⟨d,run,now,w₀,created,continues⟩
  · exact .inl refused
  · obtain ⟨r,w',-,runs,submitted,later,moves⟩ := created.spec env continues
    exact .inr ⟨d,r,w₀,w',runs,submitted,created.named,later,moves⟩

section Submission

variable {w w₀ w' : World} {d : WorkflowDefinition} {r : Run}
  (consistent : Consistent w) (submitted : Submitted w w₀ d r)
  (apart : ∀ other id id', w.store.runs.lookup other.key = some other → id ∈ other.ids →
    id' ∈ r.ids → queueKey other.ns other.id id ≠ queueKey r.ns r.id id')

include submitted

lemma Submitted.pending (distinct : (d.steps.map StepDefinition.id).Nodup) (x : String) (state : StepState)
    (found : r.status x = some state) : state = .pending := by
  by_cases known : x ∈ r.ids
  · obtain ⟨s,inside,rfl⟩ := mem_map.mp known
    have here := Workflow.stepStates_of_mem r.steps (by rw [← submitted.ids] at distinct; exact distinct) s inside
    rw [Run.status,here] at found
    rw [submitted.steps] at inside
    obtain ⟨sd,_,rfl⟩ := mem_map.mp inside
    exact (Option.some.inj found).symm
  · rw [Run.status,Workflow.stepStates_absent r.steps x known] at found
    cases found

lemma Submitted.started (distinct : (d.steps.map StepDefinition.id).Nodup) (x : String) (state : StepState)
    (found : (r.released d).status x = some state) : state = .pending ∨ state = .queued := by
  rw [released_status d r (by rw [submitted.ids]; exact distinct)] at found
  rcases release_eq found with same | ⟨queued,_⟩
  · exact .inl (submitted.pending distinct x state same)
  · exact .inr queued

variable (x : String)

include consistent

lemma Submitted.unlogged : w₀.executions r x = 0 := by
  unfold World.executions
  rw [submitted.invocations,countP_eq_zero]
  intro call inside matched
  obtain ⟨owner,stored,ns,runID,-⟩ := consistent.logged call inside
  simp only [decide_eq_true_eq] at matched
  have same : owner.key = r.key := by
    rw [Run.key,Run.key,← ns,← runID,matched.1,matched.2.1]
  rw [same,submitted.absent] at stored
  cases stored

include apart

lemma Submitted.unqueued (known : x ∈ r.ids) : w₀.item r x = none := by
  unfold World.item
  rw [submitted.queue]
  cases found : w.store.queue.lookup (queueKey r.ns r.id x) with
  | none => rfl
  | some item =>
    obtain ⟨owner,stored,ns,runID,member⟩ := consistent.owned _ item found
    have key := w.store.queue.lookup_key found
    rw [QueueItem.key,ns,runID] at key
    exact absurd key (apart owner _ x stored member known)

lemma Submitted.owned : Owned w₀ := by
  have held : ∀ other,w.store.runs.lookup other.key = some other → w₀.store.runs.lookup other.key = some other := by
    intro other stored
    rw [submitted.runs,if_neg]
    · exact stored
    · intro same
      rw [same,submitted.absent] at stored
      cases stored
  have before : ∀ other,w₀.store.runs.lookup other.key = some other →
      other = r ∨ w.store.runs.lookup other.key = some other := by
    intro other stored
    rw [submitted.runs] at stored
    split_ifs at stored with same
    · exact .inl (Option.some.inj stored).symm
    · exact .inr stored
  refine ⟨?_,?_,?_⟩
  · intro q item found
    rw [submitted.queue] at found
    obtain ⟨owner,stored,fields⟩ := consistent.owned q item found
    exact ⟨owner,held owner stored,fields⟩
  · intro a b id id' heldA heldB knownA knownB same
    rcases before a heldA with rfl | storedA
    · rcases before b heldB with rfl | storedB
      · rfl
      · exact absurd same.symm (apart b id' id storedB knownB knownA)
    · rcases before b heldB with rfl | storedB
      · exact absurd same (apart a id id' storedA knownA knownB)
      · exact consistent.separate a b id id' storedA storedB knownA knownB same
  · intro call inside
    rw [submitted.invocations] at inside
    obtain ⟨owner,stored,fields⟩ := consistent.logged call inside
    exact ⟨owner,held owner stored,fields⟩

lemma Submitted.tidy (distinct : (d.steps.map StepDefinition.id).Nodup)
    (moves : Releases d r now w₀ w') :
    Moves.Tidy w₀ w' d r (r.released d) (enqueued r now (Workflow.readySteps d r) (w₀.item r)) [] := by
  have distinctIDs : r.ids.Nodup := by rw [submitted.ids]; exact distinct
  have ids := released_ids r d
  have status := released_status d r distinctIDs
  have pending := submitted.pending distinct
  have ready := readySteps_ready d r distinctIDs
  have unqueued := submitted.unqueued consistent apart
  have count : ∀ x,w'.executions (r.released d) x = 0 := by
    intro x
    rw [executions_moves moves,submitted.unlogged consistent]
    rfl
  have started := submitted.started distinct
  rw [status] at started
  refine ⟨ids,{
    ids := ids.trans submitted.ids,distinct := by rw [ids]; exact distinctIDs
    sound := by rw [status]; exact start_sound pending
    queued := ?_,unfinished := ?_,fresh := fun x _ _ => count x,once := fun x _ => by rw [count x]; omega
    ran := ?_ },?_,?_,by simp⟩
  · intro x known
    rw [ids] at known
    rw [status,moves.item_eq]
    by_cases listed : x ∈ (Workflow.readySteps d r).map StepRun.stepID
    · obtain ⟨item,found,_⟩ := enqueued_present r now _ (w₀.item r) x listed
      rw [found,release,if_pos ((ready x).mp listed)]
      exact ⟨fun _ => rfl,fun _ => rfl⟩
    · rw [enqueued_absent r now _ _ x listed,unqueued x known,release,if_neg (mt (ready x).mpr listed)]
      refine ⟨?_,fun wrong => by cases wrong⟩
      intro queued
      cases pending x _ queued
  · intro _
    rw [ids,status]
    refine ⟨?_,?_⟩
    · intro x _ failed
      rcases started x _ failed with wrong | wrong <;> cases wrong
    · cases steps : d.steps with
      | nil => exact absurd steps submitted.nonempty
      | cons sd rest =>
        refine ⟨sd.id,by rw [submitted.ids,steps]; simp,?_⟩
        intro done
        unfold Done at done
        cases found : release (Workflow.dependencies d) r.status sd.id with
        | none => simp [found] at done
        | some state =>
          rcases started sd.id state found with rfl | rfl
          all_goals simp [found,StepState.isDone] at done
  · intro x _ succeeded
    rw [status] at succeeded
    rcases started x _ succeeded with wrong | wrong <;> cases wrong
  · intro x unknown
    refine enqueued_absent r now _ _ x ?_
    intro listed
    obtain ⟨s,inside,rfl⟩ := mem_map.mp listed
    exact unknown (mem_map.mpr ⟨s,(mem_filter.mp inside).1,rfl⟩)
  · intro x known item found
    by_cases listed : x ∈ (Workflow.readySteps d r).map StepRun.stepID
    · obtain ⟨entered,here,ns,runID,stepID,_⟩ := enqueued_present r now _ (w₀.item r) x listed
      rw [here] at found
      cases found
      exact ⟨ns,runID,stepID⟩
    · rw [enqueued_absent r now _ _ x listed,unqueued x known] at found
      cases found

lemma Submitted.keeps (distinct : (d.steps.map StepDefinition.id).Nodup)
    (moves : Releases d r now w₀ w') : Consistent w' := by
  have owned := submitted.owned consistent apart
  have tidy := submitted.tidy consistent apart distinct moves
  have stored : w₀.store.runs.lookup r.key = some r := by rw [submitted.runs,if_pos rfl]
  have defined : w₀.store.definitions.lookup r.workflow.key = some d := by
    rw [submitted.definitions,submitted.workflow]
    exact submitted.defined
  refine owned.move stored defined ?_ moves tidy
  intro other held different
  rw [submitted.runs,if_neg different] at held
  obtain ⟨e,definition,tracked⟩ := consistent.tracked other held
  refine ⟨e,by rw [submitted.definitions]; exact definition,tracked.congr ?_ ?_⟩
  · intro x _
    unfold World.item
    rw [submitted.queue]
  · intro x _
    unfold World.executions
    rw [submitted.invocations]

end Submission

end Engine

end Tempest
