import Tempest.Tracked
import Tempest.Leasing

/-! The invariant of the sequential engine over all runs: every run is tracked, and
what the queue and the log hold belongs to stored runs. It is kept by each call of
`processLease` on a lease whose item is in the queue, hence by a whole batch. -/
open List
namespace Tempest
open Interaction Filing Progress

/-- Every queue item and every logged call belongs to a stored run and one of its steps,
and the items of the runs cannot be mixed up. -/
structure Owned (w : World) : Prop where
  owned : ∀ q item, w.store.queue.lookup q = some item → ∃ r, w.store.runs.lookup r.key = some r ∧
    item.ns = r.ns ∧ item.runID = r.id ∧ item.stepID ∈ r.ids
  separate : ∀ r r' id id', w.store.runs.lookup r.key = some r → w.store.runs.lookup r'.key = some r' →
    id ∈ r.ids → id' ∈ r'.ids → queueKey r.ns r.id id = queueKey r'.ns r'.id id' → r.key = r'.key
  logged : ∀ call ∈ w.invocations, ∃ r, w.store.runs.lookup r.key = some r ∧
    call.ns = r.ns ∧ call.runID = r.id ∧ call.stepID ∈ r.ids

def TrackedRun (w : World) (r : Run) : Prop :=
  ∃ d, w.store.definitions.lookup r.workflow.key = some d ∧ Tracked w d r

structure Consistent (w : World) : Prop extends Owned w where
  tracked : ∀ r, w.store.runs.lookup r.key = some r → TrackedRun w r

/-- What a move of one tracked run must satisfy to keep the world consistent. -/
structure Moves.Tidy (w w' : World) (d : WorkflowDefinition) (r r' : Run) (items : String → Option QueueItem)
    (log : List Invocation) : Prop where
  ids : r'.ids = r.ids
  tracked : Tracked w' d r'
  foreign : ∀ id, id ∉ r.ids → items id = w.item r id
  identity : ∀ id ∈ r.ids, ∀ item, items id = some item →
    item.ns = r.ns ∧ item.runID = r.id ∧ item.stepID = id
  calls : ∀ call ∈ log, call.ns = r.ns ∧ call.runID = r.id ∧ call.stepID ∈ r.ids

section Move

variable {w w' : World} {d : WorkflowDefinition} {r r' : Run}
  {items : String → Option QueueItem} {log : List Invocation}

lemma Moves.stored_cases (moves : Moves w w' r r' items log) (other : Run)
    (stored : w'.store.runs.lookup other.key = some other) :
    other = r' ∨ other.key ≠ r.key ∧ w.store.runs.lookup other.key = some other := by
  rw [moves.runs] at stored
  split_ifs at stored with same
  · exact .inl (Option.some.inj stored).symm
  · exact .inr ⟨same,stored⟩

lemma Moves.stored_still (moves : Moves w w' r r' items log) (stored : w.store.runs.lookup r.key = some r)
    (other : Run) (held : w.store.runs.lookup other.key = some other) :
    other = r ∨ w'.store.runs.lookup other.key = some other := by
  by_cases same : other.key = r.key
  · rw [same,stored] at held
    exact .inl (Option.some.inj held).symm
  · exact .inr (by rw [moves.runs,if_neg same]; exact held)

lemma Moves.queue_cases (moves : Moves w w' r r' items log) (tidy : Moves.Tidy w w' d r r' items log)
    (q : String) : (∃ id ∈ r.ids,q = queueKey r.ns r.id id) ∨
      w'.store.queue.lookup q = w.store.queue.lookup q := by
  by_cases own : ∃ id,q = queueKey r.ns r.id id
  · obtain ⟨id,rfl⟩ := own
    by_cases known : id ∈ r.ids
    · exact .inl ⟨id,known,rfl⟩
    · exact .inr ((moves.items id).trans (tidy.foreign id known))
  · push Not at own
    exact .inr (moves.others q own)

/-- What belongs to a stored run belongs to one afterwards. -/
lemma Moves.owner (moves : Moves w w' r r' items log) (tidy : Moves.Tidy w w' d r r' items log)
    (stored : w.store.runs.lookup r.key = some r) {ns : Namespace} {runID id : String}
    (owner : ∃ o,w.store.runs.lookup o.key = some o ∧ ns = o.ns ∧ runID = o.id ∧ id ∈ o.ids) :
    ∃ o,w'.store.runs.lookup o.key = some o ∧ ns = o.ns ∧ runID = o.id ∧ id ∈ o.ids := by
  obtain ⟨o,held,ofNs,ofRun,known⟩ := owner
  rcases moves.stored_still stored o held with rfl | still
  · exact ⟨r',moves.stored,by rw [ofNs,moves.ns],by rw [ofRun,moves.id],by rw [tidy.ids]; exact known⟩
  · exact ⟨o,still,ofNs,ofRun,known⟩

lemma Owned.move (consistent : Owned w) (stored : w.store.runs.lookup r.key = some r)
    (defined : w.store.definitions.lookup r.workflow.key = some d)
    (rest : ∀ other,w.store.runs.lookup other.key = some other → other.key ≠ r.key → TrackedRun w other)
    (moves : Moves w w' r r' items log) (tidy : Moves.Tidy w w' d r r' items log) : Consistent w' := by
  refine ⟨⟨?_,?_,?_⟩,?_⟩
  rotate_right
  · intro other held
    rcases moves.stored_cases other held with rfl | ⟨different,before⟩
    · exact ⟨d,by rw [moves.definitions,moves.workflow]; exact defined,tidy.tracked⟩
    · obtain ⟨e,definition,tracked⟩ := rest other before different
      refine ⟨e,by rw [moves.definitions]; exact definition,tracked.congr ?_ ?_⟩
      · intro id known
        rcases moves.queue_cases tidy (queueKey other.ns other.id id) with ⟨own,member,same⟩ | same
        · exact absurd (consistent.separate other r id own before stored known member same) different
        · rw [World.item,same]
          rfl
      · intro id known
        unfold World.executions
        rw [moves.invocations,countP_append]
        have none : log.countP (fun call => call.ns = other.ns ∧ call.runID = other.id ∧ call.stepID = id) = 0 := by
          rw [countP_eq_zero]
          intro call member
          obtain ⟨ns,runID,-⟩ := tidy.calls call member
          have apart : ¬ (r.ns = other.ns ∧ r.id = other.id) := by
            intro equal
            exact different (by rw [Run.key,Run.key,equal.1,equal.2])
          simp only [ns,runID,decide_eq_true_eq]
          intro equal
          exact apart ⟨equal.1,equal.2.1⟩
        rw [none,Nat.add_zero]
  · intro q item found
    rcases moves.queue_cases tidy q with ⟨id,known,rfl⟩ | same
    · have here := (moves.items id).symm.trans found
      obtain ⟨ns,runID,stepID⟩ := tidy.identity id known item here
      exact moves.owner tidy stored ⟨r,stored,ns,runID,by rw [stepID]; exact known⟩
    · rw [same] at found
      exact moves.owner tidy stored (consistent.owned q item found)
  · intro a b id id' heldA heldB knownA knownB same
    rcases moves.stored_cases a heldA with rfl | ⟨_,beforeA⟩
    · rw [moves.ns,moves.id] at same
      rw [tidy.ids] at knownA
      rcases moves.stored_cases b heldB with rfl | ⟨_,beforeB⟩
      · rfl
      · rw [moves.key]
        exact consistent.separate r b id id' stored beforeB knownA knownB same
    · rcases moves.stored_cases b heldB with rfl | ⟨_,beforeB⟩
      · rw [moves.ns,moves.id] at same
        rw [tidy.ids] at knownB
        rw [moves.key]
        exact consistent.separate a r id id' beforeA stored knownA knownB same
      · exact consistent.separate a b id id' beforeA beforeB knownA knownB same
  · intro call member
    rw [moves.invocations,mem_append] at member
    rcases member with old | new
    · exact moves.owner tidy stored (consistent.logged call old)
    · exact moves.owner tidy stored ⟨r,stored,tidy.calls call new⟩

lemma Consistent.item_identity (consistent : Consistent w) (stored : w.store.runs.lookup r.key = some r)
    (id : String) (known : id ∈ r.ids) (item : QueueItem) (found : w.item r id = some item) :
    item.ns = r.ns ∧ item.runID = r.id ∧ item.stepID = id := by
  obtain ⟨owner,held,ns,runID,member⟩ := consistent.owned _ item found
  have key : queueKey owner.ns owner.id item.stepID = queueKey r.ns r.id id := by
    rw [← ns,← runID]
    exact w.store.queue.lookup_key found
  have same := consistent.separate owner r _ _ held stored member known key
  rw [same,stored] at held
  cases Option.some.inj held
  exact ⟨ns,runID,queueKey_injective _ _ _ _ key⟩

end Move

namespace Engine

/-- One call of `processLease` in a consistent world, on a lease whose item is in
the queue: the run, its definition and how the call ended. -/
structure LeaseStep (env : Env) (lease : QueueLease) (w w' : World)
    (d : WorkflowDefinition) (sd : StepDefinition) (r r' : Run) (items : String → Option QueueItem)
    (log : List Invocation) : Prop where
  consistent : Consistent w
  stored : w.store.runs.lookup r.key = some r
  defined : w.store.definitions.lookup r.workflow.key = some d
  tracked : Tracked w d r
  named : findStepDef d lease.item.stepID = some sd
  ns : lease.item.ns = r.ns
  runID : lease.item.runID = r.id
  member : lease.item.stepID ∈ r.ids
  queued : r.status lease.item.stepID = some .queued
  processed : Processed env d sd w w' r r' lease.item.stepID items log
  moves : Moves w w' r r' items log

section Lease

variable {env : Env} {lease : QueueLease} {w w' : World} {d : WorkflowDefinition}
  {sd : StepDefinition} {r r' : Run} {items : String → Option QueueItem} {log : List Invocation}

lemma findStepDef_of_mem (d : WorkflowDefinition) (id : String) (member : id ∈ d.steps.map StepDefinition.id) :
    ∃ sd,findStepDef d id = some sd := by
  obtain ⟨sd,inside,same⟩ := mem_map.mp member
  cases search : findStepDef d id with
  | some found => exact ⟨found,rfl⟩
  | none =>
    have wrong := find?_eq_none.mp search sd inside
    simp [same] at wrong

lemma lease_step (env : Env) (consistent : Consistent w)
    (present : w.store.queue.lookup lease.item.key = some lease.item) :
    ∃ w' d sd r r' items log,(processLease env lease).run (exec env) w = (.ok (),w') ∧
      LeaseStep env lease w w' d sd r r' items log := by
  obtain ⟨r,stored,ns,runID,member⟩ := consistent.owned _ _ present
  obtain ⟨d,defined,tracked⟩ := consistent.tracked r stored
  obtain ⟨sd,named⟩ := findStepDef_of_mem d lease.item.stepID (by rw [← tracked.ids]; exact member)
  have here : (w.item r lease.item.stepID).isSome := by
    rw [World.item,← ns,← runID]
    exact Option.isSome_of_eq_some present
  obtain ⟨w',r',items,log,runs,processed,moves⟩ :=
    processLease_spec env d sd lease stored defined named ns runID here
  exact ⟨w',d,sd,r,r',items,log,runs,consistent,stored,defined,tracked,named,ns,runID,member,
    (tracked.queued _ member).mpr here,processed,moves⟩

section
variable (step : LeaseStep env lease w w' d sd r r' items log)
include step

lemma LeaseStep.settled : r'.ids = r.ids ∧ Settled env d sd w w' r r' lease.item.stepID items log :=
  step.processed.settled step.tracked.distinct step.member

lemma LeaseStep.items_kept (id : String)
    (different : id ≠ lease.item.stepID) (item : QueueItem) (known : id ∈ r.ids) (found : w.item r id = some item) :
    items id = some item := by
  have queued :=
    (step.tracked.queued id known).mpr (Option.isSome_of_eq_some found)
  rcases step.settled.2 with ⟨call,succeeds⟩ | fails
  · have waiting : ¬ Ready (Workflow.dependencies d)
        (Function.update r.status lease.item.stepID (some .succeeded)) id := by
      intro ready
      have pending := ready.1
      rw [Function.update_of_ne different,queued] at pending
      cases pending
    rw [succeeds.others id waiting,if_neg different,found]
  · rw [fails.others id,if_neg different,found]

lemma LeaseStep.tidy : Moves.Tidy w w' d r r' items log := by
  obtain ⟨ids,settled⟩ := step.settled
  have removed : ∀ x,x ∉ r.ids → (if x = lease.item.stepID then none else w.item r x) = w.item r x := by
    intro x unknown
    rw [if_neg]
    intro same
    exact unknown (same ▸ step.member)
  have identity := fun id known item found =>
    step.consistent.item_identity step.stored id known item found
  have old : ∀ x ∈ r.ids,∀ item,(if x = lease.item.stepID then none else w.item r x) = some item →
      item.ns = r.ns ∧ item.runID = r.id ∧ item.stepID = x := by
    intro x known item found
    split_ifs at found
    exact identity x known item found
  rcases settled with ⟨call,succeeds⟩ | fails
  · obtain ⟨started,logged,-,-,-,entered,others⟩ := id succeeds
    have waiting : ∀ x,x ∉ r.ids → ¬ Ready (Workflow.dependencies d)
        (Function.update r.status lease.item.stepID (some .succeeded)) x := by
      intro x unknown ready
      have pending := ready.1
      have different : x ≠ lease.item.stepID := by
        intro same
        exact unknown (same ▸ step.member)
      rw [Function.update_of_ne different,Run.status,Workflow.stepStates_absent r.steps x unknown] at pending
      cases pending
    refine ⟨ids,Tracked.succeed step.tracked step.moves ids step.queued succeeds,?_,?_,?_⟩
    · intro x unknown
      rw [others x (waiting x unknown),removed x unknown]
    · intro x known item found
      by_cases ready : Ready (Workflow.dependencies d)
          (Function.update r.status lease.item.stepID (some .succeeded)) x
      · obtain ⟨new,here,ns,runID,stepID,_⟩ := entered x ready
        rw [here] at found
        cases found
        exact ⟨ns,runID,stepID⟩
      · rw [others x ready] at found
        exact old x known item found
    · intro other inside
      rw [logged,mem_singleton] at inside
      subst inside
      exact ⟨started.ns,started.runID,started.stepID ▸ step.member⟩
  · refine ⟨ids,Tracked.fail step.tracked step.moves ids step.queued fails,?_,?_,?_⟩
    · intro x unknown
      rw [fails.others x,removed x unknown]
    · intro x known item found
      rw [fails.others x] at found
      exact old x known item found
    · intro other inside
      rcases fails.failing.logged with none | ⟨call,started,one⟩
      · rw [none] at inside
        cases inside
      · rw [one,mem_singleton] at inside
        subst inside
        exact ⟨started.ns,started.runID,started.stepID ▸ step.member⟩

lemma LeaseStep.consistent' : Consistent w' :=
  step.consistent.toOwned.move step.stored step.defined
    (fun other held _ => step.consistent.tracked other held) step.moves step.tidy

lemma LeaseStep.other_items (q : String)
    (different : q ≠ lease.item.key) (item : QueueItem) (found : w.store.queue.lookup q = some item) :
    w'.store.queue.lookup q = some item := by
  rcases step.moves.queue_cases step.tidy q with ⟨id,known,rfl⟩ | same
  · refine (step.moves.items id).trans (step.items_kept id ?_ item known found)
    intro same
    apply different
    rw [QueueItem.key,step.ns,step.runID,same]
  · rw [same]
    exact found

end

end Lease

/-- The leases of one `ProcessLeases` call, processed one after the other. -/
inductive Batch (env : Env) : List QueueLease → World → World → Prop
  | nil (w : World) : Batch env [] w w
  | cons (lease rest w w' w'' d sd r r' items log)
      (step : LeaseStep env lease w w' d sd r r' items log) (after : Batch env rest w' w'') :
      Batch env (lease :: rest) w w''

lemma Batch.invariant {env : Env} {Q : World → Prop} (keeps : ∀ {lease w w' d sd r r' items log},
    LeaseStep env lease w w' d sd r r' items log → Q w → Q w') {leases : List QueueLease} {w w' : World}
    (batch : Batch env leases w w') (before : Q w) : Q w' := by
  induction batch with
  | nil => exact before
  | cons lease rest w w₁ w' d sd r r' items log step after ih => exact ih (keeps step before)

lemma processEach_batch (env : Env) (leases : List QueueLease) (w : World)
    (consistent : Consistent w)
    (present : ∀ lease ∈ leases,w.store.queue.lookup lease.item.key = some lease.item)
    (distinct : (leases.map (fun lease => lease.item.key)).Nodup) :
    ∃ w',(processEach env leases).run (exec env) w = (.ok (),w') ∧ Batch env leases w w' := by
  induction leases generalizing w with
  | nil => exact ⟨w,rfl,.nil w⟩
  | cons lease rest ih =>
    rw [map_cons,nodup_cons] at distinct
    obtain ⟨w₁,d,sd,r,r',items,log,runs,step⟩ := lease_step env consistent (present lease (by simp))
    have still : ∀ other ∈ rest,w₁.store.queue.lookup other.item.key = some other.item := by
      intro other inside
      refine step.other_items _ ?_ _ (present other (mem_cons_of_mem _ inside))
      intro same
      exact distinct.1 (mem_map.mpr ⟨other,inside,same⟩)
    obtain ⟨w',others,batch⟩ := ih w₁ step.consistent' still distinct.2
    refine ⟨w',?_,.cons lease rest w w₁ w' d sd r r' items log step batch⟩
    unfold processEach
    rw [Prog.run_bind,runs]
    exact others

end Engine

end Tempest
