import Tempest.Sequential

/-! The invariant of one run in the sequential engine. Between calls the status of
the run is sound, exactly its queued steps have a queue item, a run that is not
terminal still has something to do, and the log of handler calls agrees with the
states of the steps. -/
open List
namespace Tempest
open Interaction Filing Progress Function Workflow

def World.executions (w : World) (r : Run) (id : String) : Nat :=
  w.invocations.countP (fun call => call.ns = r.ns ∧ call.runID = r.id ∧ call.stepID = id)

structure Tracked (w : World) (d : WorkflowDefinition) (r : Run) : Prop where
  ids : r.ids = d.steps.map StepDefinition.id
  distinct : r.ids.Nodup
  sound : Sound (Workflow.dependencies d) r.status
  queued : ∀ id ∈ r.ids, r.status id = some .queued ↔ (w.item r id).isSome
  unfinished : r.state.isTerminal = false →
    (∀ id ∈ r.ids, r.status id ≠ some .failed) ∧ ∃ id ∈ r.ids, ¬ Done r.status id
  fresh : ∀ id ∈ r.ids, r.status id = some .pending ∨ r.status id = some .queued → w.executions r id = 0
  once : ∀ id ∈ r.ids, w.executions r id ≤ 1
  ran : ∀ id ∈ r.ids, r.status id = some .succeeded → w.executions r id = 1

/-! The queue of a run after its ready steps have been enqueued. -/
section Enqueued

variable (r : Run) (now : Time) (ready : List StepRun)

lemma enqueued_absent (items : String → Option QueueItem) (x : String)
    (absent : x ∉ ready.map StepRun.stepID) : enqueued r now ready items x = items x := by
  induction ready generalizing items with
  | nil => rfl
  | cons s rest ih =>
    simp only [map_cons,mem_cons,not_or] at absent
    rw [enqueued,foldl_cons]
    refine (ih _ absent.2).trans ?_
    rw [update_of_ne absent.1]

lemma enqueued_present (items : String → Option QueueItem) (x : String) (member : x ∈ ready.map StepRun.stepID) :
    ∃ item,enqueued r now ready items x = some item ∧ item.ns = r.ns ∧ item.runID = r.id ∧
      item.stepID = x ∧ item.visibleAt = now := by
  induction ready generalizing items with
  | nil => cases member
  | cons s rest ih =>
    rw [enqueued,foldl_cons]
    by_cases later : x ∈ rest.map StepRun.stepID
    · exact ih _ later
    · have same : x = s.stepID := by
        rw [map_cons,mem_cons] at member
        rcases member with here | there
        · exact here
        · exact absurd there later
      refine ⟨Engine.queueItemFor r s now now,?_,rfl,rfl,same.symm,rfl⟩
      refine (enqueued_absent r now rest _ x later).trans ?_
      rw [same,update_self]

end Enqueued

namespace Engine

variable {env : Env} {d : WorkflowDefinition} {sd : StepDefinition} {w w' : World} {r r' : Run} {id : String}
  {items : String → Option QueueItem} {log : List Invocation}

variable {target : StepState} {steps steps' : List StepRun} {call : Invocation}

lemma Became.ids (became : Became id target steps steps') :
    steps'.map StepRun.stepID = steps.map StepRun.stepID := by
  obtain ⟨change,keepsID,_,rfl⟩ := became
  exact modifyStep_ids id change keepsID steps

lemma Became.status (became : Became id target steps steps')
    (distinct : (steps.map StepRun.stepID).Nodup) (member : id ∈ steps.map StepRun.stepID) :
    stepStates steps' = update (stepStates steps) id (some target) := by
  obtain ⟨change,keepsID,becomes,rfl⟩ := became
  exact stepStates_modifyStep distinct id member change keepsID target becomes

section
variable (env : Env) (d : WorkflowDefinition) (sd : StepDefinition) (w w' : World) (r r' : Run) (id : String)
  (items : String → Option QueueItem) (log : List Invocation)

structure StepSucceeds (call : Invocation) : Prop where
  started : Started w r id call
  logged : log = [call]
  status : r'.status = release (dependencies d) (update r.status id (some .succeeded))
  promoted : (∀ x ∈ r.ids, Done (update r.status id (some .succeeded)) x) → r'.state = .succeeded
  kept : (∃ x ∈ r.ids, ¬ Done (update r.status id (some .succeeded)) x) → r'.state = r.state
  entered : ∀ x, Ready (dependencies d) (update r.status id (some .succeeded)) x →
    ∃ item, items x = some item ∧ item.ns = r.ns ∧ item.runID = r.id ∧ item.stepID = x ∧
      ∃ tick < w'.tick, item.visibleAt = env.clock tick
  others : ∀ x, ¬ Ready (dependencies d) (update r.status id (some .succeeded)) x →
    items x = if x = id then none else w.item r x

structure StepFails : Prop where
  failing : Failing env sd w r id log
  status : r'.status = update r.status id (some .failed)
  state : r'.state = .failed
  others : ∀ x, items x = if x = id then none else w.item r x

/-- The outcome of a lease in terms of the status: the step succeeds and what has
become ready is released, or the step fails. -/
inductive Settled : Prop
  | succeeded (call : Invocation) (succeeds : StepSucceeds env d w w' r r' id items log call)
  | failed (fails : StepFails env sd w r r' id items log)

end

lemma update_none (x : String) : update (w.item r) id none x = if x = id then none else w.item r x := by
  rw [update_apply]

lemma Processed.settled (processed : Processed env d sd w w' r r' id items log) (distinct : r.ids.Nodup)
    (member : id ∈ r.ids) : r'.ids = r.ids ∧ Settled env d sd w w' r r' id items log := by
  cases processed with
  | completed call steps tick started logged became from_ until_ state ready queue =>
    have ids := became.ids
    have status := became.status distinct member
    have stillDistinct : ({ r with steps }).ids.Nodup := by
      unfold Run.ids
      rwa [ids]
    refine ⟨?_,.succeeded call ⟨started,logged,?_,?_,?_,?_,?_⟩⟩
    · unfold Run.ids
      rw [ready,markQueued_ids,ids]
    · unfold Run.status
      rw [ready]
      refine (released_status d { r with steps } stillDistinct).trans ?_
      unfold Run.status
      rw [← status]
    · intro done
      have all : allDone { r with steps } = true := by
        rw [allDone_iff _ stillDistinct]
        intro x known
        unfold Run.status at done ⊢
        rw [status]
        exact done x (by unfold Run.ids at known ⊢; rwa [ids] at known)
      rw [state,if_pos all]
    · intro ⟨x,known,undone⟩
      have some_ : ¬ allDone { r with steps } = true := by
        intro all
        rw [allDone_iff _ stillDistinct] at all
        unfold Run.status at all undone
        rw [status] at all
        exact undone (all x (by unfold Run.ids at known ⊢; rwa [ids]))
      rw [state,if_neg some_]
    · intro x isReady
      unfold Run.status at isReady
      rw [← status] at isReady
      have listed := (readySteps_ready d { r with steps } stillDistinct x).mpr isReady
      obtain ⟨item,found,ns,runID,stepID,visibleAt⟩ := enqueued_present r (env.clock tick) _
        (update (w.item r) id none) x listed
      exact ⟨item,by rw [queue,found],ns,runID,stepID,tick,until_,visibleAt⟩
    · intro x notReady
      unfold Run.status at notReady
      rw [← status] at notReady
      have unlisted := mt (readySteps_ready d { r with steps } stillDistinct x).mp notReady
      rw [queue,enqueued_absent r _ _ _ x unlisted,update_none]
  | failed failing became state queue =>
    refine ⟨became.ids,.failed ⟨failing,became.status distinct member,state,?_⟩⟩
    intro x
    rw [queue,update_none]

lemma Failing.logged {sd : StepDefinition} (failing : Failing env sd w r id log) :
    log = [] ∨ ∃ call,Started w r id call ∧ log = [call] := by
  cases failing with
  | unresolved _ logged => exact .inl logged
  | called call started logged _ _ => exact .inr ⟨call,started,logged⟩

lemma executions_moves (moves : Moves w w' r r' items log) (x : String) : w'.executions r' x = w.executions r x +
      log.countP (fun call => call.ns = r.ns ∧ call.runID = r.id ∧ call.stepID = x) := by
  unfold World.executions
  rw [moves.invocations,countP_append,moves.ns,moves.id]

lemma executions_started (moves : Moves w w' r r' items log) (started : Started w r id call)
    (logged : log = [call]) (x : String) : w'.executions r' x = w.executions r x + if x = id then 1 else 0 := by
  rw [executions_moves moves,logged]
  by_cases same : x = id
  · simp [started.ns,started.runID,started.stepID,same]
  · simp [started.stepID,same,Ne.symm same]

lemma item_isSome_settled (tracked : Tracked w d r) {σ : Status String}
    (moved : σ = update r.status id (some target)) (stopped : target ≠ .queued) (x : String) (known : x ∈ r.ids) :
    σ x = some .queued ↔ (if x = id then none else w.item r x).isSome = true := by
  rw [moved]
  by_cases same : x = id
  · simp [same,stopped]
  · rw [update_of_ne same,if_neg same]
    exact tracked.queued x known

section
variable (tracked : Tracked w d r) (moves : Moves w w' r r' items log) (ids : r'.ids = r.ids)
  (queued : r.status id = some .queued)
include tracked moves ids queued

lemma Tracked.succeed (succeeds : StepSucceeds env d w w' r r' id items log call) : Tracked w' d r' := by
  obtain ⟨started,logged,status,promoted,kept,entered,others⟩ := succeeds
  have count := executions_started moves started logged
  -- a step waits or is queued afterwards only if it did before
  have before : ∀ x,r'.status x = some .pending ∨ r'.status x = some .queued →
      x ≠ id ∧ (r.status x = some .pending ∨ r.status x = some .queued) := by
    intro x waits
    have waited : update r.status id (some .succeeded) x = some .pending ∨
        update r.status id (some .succeeded) x = some .queued := by
      rw [status] at waits
      rcases waits with pending | queues
      · rcases release_eq pending with same | ⟨wrong,_⟩
        · exact .inl same
        · cases wrong
      · rcases release_eq queues with same | ⟨_,pending⟩
        · exact .inr same
        · exact .inl pending
    by_cases same : x = id
    · rw [same,update_self] at waited
      rcases waited with wrong | wrong <;> cases wrong
    · rw [update_of_ne same] at waited
      exact ⟨same,waited⟩
  refine {
    ids := ids.trans tracked.ids,distinct := by rw [ids]; exact tracked.distinct
    sound := by rw [status]; exact succeed_sound tracked.sound id queued
    queued := ?_,unfinished := ?_,fresh := ?_,once := ?_,ran := ?_ }
  all_goals rw [ids]
  · intro x known
    rw [moves.item_eq,status,release]
    split_ifs with ready
    · obtain ⟨item,found,_⟩ := entered x ready
      exact ⟨fun _ => Option.isSome_of_eq_some found,fun _ => rfl⟩
    · rw [others x ready]
      exact item_isSome_settled tracked rfl (by decide) x known
  · intro running
    have undone : ∃ x ∈ r.ids,¬ Done (update r.status id (some .succeeded)) x := by
      by_contra all
      push Not at all
      rw [promoted all] at running
      cases running
    rw [kept undone] at running
    obtain ⟨unfailed,_⟩ := tracked.unfinished running
    refine ⟨?_,?_⟩
    · intro x known failed
      rw [status] at failed
      rcases release_update_eq (by decide) failed with ⟨_,wrong⟩ | old
      · cases wrong
      · exact unfailed x known old
    · obtain ⟨x,known,lacks⟩ := undone
      refine ⟨x,known,?_⟩
      rw [status,release_done]
      exact lacks
  · intro x known waits
    obtain ⟨different,old⟩ := before x waits
    rw [count,if_neg different,tracked.fresh x known old]
  · intro x known
    rw [count]
    split_ifs with same
    · rw [same,tracked.fresh id (same ▸ known) (.inr queued)]
    · exact tracked.once x known
  · intro x known succeeded
    rw [count]
    rw [status] at succeeded
    split_ifs with same
    · rw [same,tracked.fresh id (same ▸ known) (.inr queued)]
    · rcases release_update_eq (by decide) succeeded with ⟨here,_⟩ | old
      · exact absurd here same
      · exact tracked.ran x known old

lemma Tracked.fail (fails : StepFails env sd w r r' id items log) : Tracked w' d r' := by
  obtain ⟨failing,status,state,others⟩ := fails
  have logged := failing.logged
  have count : ∀ x,x ≠ id → w'.executions r' x = w.executions r x := by
    intro x different
    rcases logged with none | ⟨call,started,one⟩
    · rw [executions_moves moves,none]
      rfl
    · rw [executions_started moves started one,if_neg different]
      rfl
  have atMost : w'.executions r' id ≤ w.executions r id + 1 := by
    rcases logged with none | ⟨call,started,one⟩
    · rw [executions_moves moves,none]
      exact Nat.le_succ _
    · rw [executions_started moves started one,if_pos rfl]
  have elsewhere : ∀ x state,state ≠ .failed → r'.status x = some state → x ≠ id ∧ r.status x = some state := by
    intro x state different found
    rw [status] at found
    by_cases same : x = id
    · rw [same,update_self,Option.some.injEq] at found
      exact absurd found.symm different
    · rw [update_of_ne same] at found
      exact ⟨same,found⟩
  refine {
    ids := ids.trans tracked.ids,distinct := by rw [ids]; exact tracked.distinct
    sound := by rw [status]; exact fail_sound tracked.sound id queued
    queued := ?_,unfinished := ?_,fresh := ?_,once := ?_,ran := ?_ }
  all_goals rw [ids]
  · intro x known
    rw [moves.item_eq,others x]
    exact item_isSome_settled tracked status (by decide) x known
  · intro running
    rw [state] at running
    cases running
  · intro x known waits
    have old : x ≠ id ∧ (r.status x = some .pending ∨ r.status x = some .queued) := by
      rcases waits with pending | queues
      · obtain ⟨different,same⟩ := elsewhere x .pending (by decide) pending
        exact ⟨different,.inl same⟩
      · obtain ⟨different,same⟩ := elsewhere x .queued (by decide) queues
        exact ⟨different,.inr same⟩
    rw [count x old.1,tracked.fresh x known old.2]
  · intro x known
    by_cases same : x = id
    · subst same
      rw [tracked.fresh x known (.inr queued)] at atMost
      exact atMost
    · rw [count x same]
      exact tracked.once x known
  · intro x known succeeded
    obtain ⟨different,old⟩ := elsewhere x .succeeded (by decide) succeeded
    rw [count x different]
    exact tracked.ran x known old

end

end Engine

lemma Tracked.congr {w w' : World} {d : WorkflowDefinition} {r : Run} (tracked : Tracked w d r)
    (items : ∀ id ∈ r.ids,(w'.item r id).isSome = (w.item r id).isSome)
    (executions : ∀ id ∈ r.ids,w'.executions r id = w.executions r id) : Tracked w' d r where
  ids := tracked.ids
  distinct := tracked.distinct
  sound := tracked.sound
  queued := fun id known => by rw [items id known]; exact tracked.queued id known
  unfinished := tracked.unfinished
  fresh := fun id known waits => by rw [executions id known]; exact tracked.fresh id known waits
  once := fun id known => by rw [executions id known]; exact tracked.once id known
  ran := fun id known succeeded => by rw [executions id known]; exact tracked.ran id known succeeded

end Tempest
