import Tempest.Concurrent

/-! What the sequential engine keeps in every history. The state of a run may change after it was
terminal, but its steps and the queue agree at all times, and a step that has ended stays as it
ended. -/
namespace Tempest
open Engine Progress

/-- The same run later: the steps that had ended have ended alike. -/
structure Later (r r' : Run) : Prop where
  workflow : r'.workflow = r.workflow
  ids : r'.ids = r.ids
  ended : ∀ x,r.status x = some .succeeded ∨ r.status x = some .failed → r'.status x = r.status x

/-- No run is lost between two worlds. -/
def Carried (w w' : World) : Prop :=
  ∀ k r,w.store.runs.lookup k = some r → ∃ r',w'.store.runs.lookup k = some r' ∧ Later r r'

variable {env : Env} {w w' w'' : World} {r r' : Run} {items : String → Option QueueItem} {log : List Invocation}

lemma Carried.of_runs (same : w'.store.runs = w.store.runs) : Carried w w' :=
  fun _ r stored => ⟨r,same ▸ stored,rfl,rfl,fun _ _ => rfl⟩

lemma Carried.trans (first : Carried w w') (second : Carried w' w'') : Carried w w'' := by
  intro k r stored
  obtain ⟨r',stored',sooner⟩ := first k r stored
  obtain ⟨r'',stored'',later⟩ := second k r' stored'
  refine ⟨r'',stored'',later.workflow.trans sooner.workflow,later.ids.trans sooner.ids,fun x ended => ?_⟩
  have same := sooner.ended x ended
  rw [← same] at ended ⊢
  exact later.ended x ended

lemma Moves.carried (moves : Moves w w' r r' items log) (stored : w.store.runs.lookup r.key = some r)
    (later : Later r r') : Carried w w' := by
  intro k other held
  rw [moves.runs]
  split_ifs with same
  · rw [same,stored] at held
    cases held
    exact ⟨r',rfl,later⟩
  · exact ⟨other,held,rfl,rfl,fun _ _ => rfl⟩

lemma Engine.LeaseStep.later {lease : QueueLease} {d : WorkflowDefinition} {sd : StepDefinition}
    (step : LeaseStep env lease w w' d sd r r' items log) : Later r r' := by
  obtain ⟨ids,settled⟩ := step.settled
  refine ⟨step.moves.workflow,ids,fun x ended => ?_⟩
  -- the leased step was queued, and a release changes pending steps only
  have other : x ≠ lease.item.stepID := by
    rintro rfl
    simp [step.queued] at ended
  cases settled with
  | succeeded call succeeds =>
    rw [succeeds.status,release,if_neg,Function.update_of_ne other]
    rintro ⟨pending,-⟩
    rw [Function.update_of_ne other] at pending
    simp [pending] at ended
  | failed fails => rw [fails.status,Function.update_of_ne other]

lemma CallStep.carried {c : Call} (step : CallStep env w w' c) : Carried w w' := by
  cases step with
  | quiet c store => exact .of_runs (congrArg _ store)
  | cancelled ns id r r' stored steps state moves =>
    exact moves.carried stored ⟨moves.workflow,by rw [Run.ids,steps]; rfl,fun x _ => by rw [Run.status,steps]; rfl⟩
  | submitted input d r w₀ now named submitted moves =>
    intro k other held
    have old : k ≠ r.key := by
      rintro rfl
      rw [submitted.absent] at held
      cases held
    exact ⟨other,by rw [moves.runs,if_neg old,submitted.runs,if_neg old,held],rfl,rfl,fun _ _ => rfl⟩
  | processed w₁ leases taken dequeued batch =>
    exact batch.invariant (fun step before => before.trans (step.moves.carried step.stored step.later))
      (Carried.of_runs dequeued.runs)

lemma history_healthy (env : Env) (history : List Call) (fresh : Fresh w) : Healthy (history.foldl (serve env) w) :=
  List.foldlRecOn history (serve env) fresh.healthy fun w healthy c _ => (call_step env w healthy c).healthy healthy

/-- In every history each run has the steps of its definition, exactly the queued ones have a
queue item, what is not pending is what has its dependencies done, and the handlers have been
called once for the steps that succeeded and not at all for those that wait. -/
theorem history_consistent (env : Env) (history : List Call) (fresh : Fresh w) :
    Consistent (history.foldl (serve env) w) := (history_healthy env history fresh).consistent

/-- No later call loses a run or takes back the end of a step. -/
theorem history_carried (env : Env) (history more : List Call) (fresh : Fresh w) :
    Carried (history.foldl (serve env) w) (more.foldl (serve env) (history.foldl (serve env) w)) := by
  induction more generalizing history with
  | nil => exact .of_runs rfl
  | cons c more ih =>
    have first := (call_step env _ (history_healthy env history fresh) c).carried
    have rest := ih (history ++ [c])
    rw [List.foldl_append] at rest
    exact first.trans rest

/-- In every interleaving of submissions, polls and the operations of the workers each stored run
has the steps of its definition, and all queue items, leases and workers' copies are of stored runs. -/
theorem interleaved_sane (env : Env) (reliable : env.Reliable) (choices : List Choice) (fresh : Fresh w) :
    Sane (choices.foldl (act env) ⟨w,[]⟩) :=
  List.foldlRecOn choices (act env) fresh.sane fun _ sane c _ => (act_step env sane c).sane reliable sane

def passing : WorkflowDefinition where
  id := ⟨"default","pass",1⟩
  steps := [{ id := "a", handler := "pass" },{ id := "b", handler := "pass", dependsOn := ["a"] }]

def passedCalls : List Call := [.submit { workflow := passing.id },.processLeases]

/-- The first step has been executed and the second one is queued. -/
def passed : World := passedCalls.foldl (serve .steady) (.holding passing)

theorem passed_consistent : passed.invocations.map Invocation.stepID = ["a"] ∧ Consistent passed :=
  ⟨by decide,history_consistent .steady passedCalls (holding_fresh passing (by decide))⟩

theorem passed_carried :
    (passed.store.runs.lookup "default/:2").map (fun r => r.status "a") = some (some .succeeded) ∧
      Carried passed (serve .steady passed .processLeases) :=
  ⟨by decide,history_carried .steady passedCalls [.processLeases] (holding_fresh passing (by decide))⟩

/-- A worker holds the lease of the first step and has read its run. -/
def passedSystem : System :=
  [Choice.submit { workflow := passing.id },.poll,.advance 0].foldl (act .steady) ⟨.holding passing,[]⟩

theorem passed_sane :
    passedSystem.threads.map (fun t => (t.label.lease.item.stepID,t.label.copy.isSome)) = [("a",true)] ∧
      Sane passedSystem :=
  ⟨by decide,interleaved_sane .steady Env.steady_reliable _ (holding_fresh passing (by decide))⟩

end Tempest
