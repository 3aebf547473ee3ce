import Tempest.History

/-! Retries. `failStep` ends the run at the first failure and never looks at the
retry policy, so the policy is honoured only where it asks for one attempt and the
handler can be resolved. -/
namespace Tempest.Retries
open Interaction Progress Engine List

def unsuccessful (call : Invocation) : Bool :=
  match call.result with
  | .ok result => result.error.isSome
  | .error _ => true

lemma unsuccessful_of_fails (call : Invocation) (fails : ¬ Succeeds call.result) : unsuccessful call = true := by
  unfold unsuccessful
  cases answer : call.result with
  | error err => rfl
  | ok result =>
    obtain ⟨output,error⟩ := result
    cases error with
    | some err => rfl
    | none => exact absurd ⟨output,answer⟩ fails

def failures (w : World) (r : Run) (id : String) : Nat :=
  w.invocations.countP
    (fun call => call.ns = r.ns ∧ call.runID = r.id ∧ call.stepID = id ∧ unsuccessful call = true)

def attempts (sd : StepDefinition) : Nat := max 1 sd.retry.maxAttempts.toNat

/-- A run is FAILED because of a step only after all attempts at the step have
failed, and no step has been attempted more often than its policy says. -/
def Honoured (w : World) : Prop :=
  ∀ r d, w.store.runs.lookup r.key = some r → w.store.definitions.lookup r.workflow.key = some d →
    ∀ sd ∈ d.steps,
      (r.state = .failed → (∃ s ∈ r.steps, s.stepID = sd.id ∧ s.state = .failed) →
        attempts sd ≤ failures w r sd.id) ∧ w.executions r sd.id ≤ attempts sd

def SingleAttempt (env : Env) (d : WorkflowDefinition) : Prop :=
  ∀ sd ∈ d.steps, env.registered sd.handler = true ∧
    (sd.retry.maxAttempts ≤ 1 ∨ ∀ tick handle, Succeeds (env.execute tick sd.handler handle))

def FailedOnce (w : World) (d : WorkflowDefinition) (r : Run) : Prop :=
  ∀ sd ∈ d.steps, r.status sd.id = some .failed → sd.retry.maxAttempts ≤ 1 ∧ 1 ≤ failures w r sd.id

def FailuresLogged (w : World) : Prop :=
  ∀ r d, w.store.runs.lookup r.key = some r → w.store.definitions.lookup r.workflow.key = some d → FailedOnce w d r

lemma failures_mono {w w' : World} {r r' : Run} {log : List Invocation} (ns : r'.ns = r.ns) (id : r'.id = r.id)
    (invocations : w'.invocations = w.invocations ++ log) (x : String) : failures w r x ≤ failures w' r' x := by
  unfold failures
  rw [invocations,countP_append,ns,id]
  exact Nat.le_add_right _ _

section Lease

variable {env : Env} {lease : QueueLease} {w w' : World} {d : WorkflowDefinition}
  {sd : StepDefinition} {r r' : Run} {items : String → Option QueueItem} {log : List Invocation}

lemma step_failedOnce (step : LeaseStep env lease w w' d sd r r' items log) (single : SingleAttempt env d)
    (before : FailedOnce w d r) : FailedOnce w' d r' := by
  have named : sd.id = lease.item.stepID := by simpa using find?_some step.named
  have member := mem_of_find?_eq_some step.named
  obtain ⟨registered,policy⟩ := single sd member
  have grows := failures_mono step.moves.ns step.moves.id step.moves.invocations
  have old : ∀ other ∈ d.steps,r.status other.id = some .failed →
      other.retry.maxAttempts ≤ 1 ∧ 1 ≤ failures w' r' other.id := by
    intro other inside failed
    obtain ⟨one,logged⟩ := before other inside failed
    exact ⟨one,logged.trans (grows other.id)⟩
  intro other inside failed
  rcases step.settled.2 with ⟨_,_,_,status,_⟩ | ⟨failing,status,_,_⟩
  · refine old other inside ?_
    rw [status] at failed
    rcases release_update_eq (by decide) failed with ⟨_,wrong⟩ | same
    · cases wrong
    · exact same
  · by_cases here : other.id = lease.item.stepID
    · have same :=
        inj_on_of_nodup_map (by rw [← step.tracked.ids]; exact step.tracked.distinct) inside member
          (here.trans named.symm)
      subst same
      cases failing with
      | unresolved unregistered logged =>
        rw [registered] at unregistered
        cases unregistered
      | called call started logged answered fails =>
        refine ⟨?_,?_⟩
        · rcases policy with one | always
          · exact one
          · obtain ⟨tick,handle,answer⟩ := answered
            rw [answer] at fails
            exact absurd (always tick handle) fails
        · unfold failures
          rw [step.moves.invocations,logged,step.moves.ns,step.moves.id]
          have counted := unsuccessful_of_fails call fails
          simp [started.ns,started.runID,started.stepID,here,counted]
    · rw [status,Function.update_of_ne here] at failed
      exact old other inside failed

lemma step_failuresLogged (step : LeaseStep env lease w w' d sd r r' items log)
    (single : RunsOf (SingleAttempt env) w) (before : FailuresLogged w) : FailuresLogged w' := by
  intro other e held defined
  rw [step.moves.definitions] at defined
  rcases step.moves.stored_cases other held with rfl | ⟨_,stored⟩
  · rw [step.moves.workflow,step.defined] at defined
    cases defined
    exact step_failedOnce step (single r d step.stored step.defined) (before r d step.stored step.defined)
  · intro sd' inside failed
    obtain ⟨one,logged⟩ := before other e stored defined sd' inside failed
    exact ⟨one,logged.trans (failures_mono rfl rfl step.moves.invocations sd'.id)⟩

end Lease

lemma failuresLogged_congr {w w' : World} (before : FailuresLogged w)
    (runs : ∀ r,w'.store.runs.lookup r.key = some r → ∃ old,w.store.runs.lookup old.key = some old ∧
      r.ns = old.ns ∧ r.id = old.id ∧ r.workflow = old.workflow ∧ r.status = old.status)
    (definitions : w'.store.definitions = w.store.definitions) (invocations : w'.invocations = w.invocations) :
    FailuresLogged w' := by
  intro r d held defined sd inside failed
  obtain ⟨old,stored,ns,id,workflow,status⟩ := runs r held
  rw [definitions,workflow] at defined
  rw [status] at failed
  obtain ⟨one,logged⟩ := before old d stored defined sd inside failed
  exact ⟨one,logged.trans (failures_mono ns id (invocations.trans (append_nil _).symm) sd.id)⟩

lemma call_failuresLogged {env : Env} {w w' : World} {c : Call} (step : CallStep env w w' c) (healthy : Healthy w)
    (single : RunsOf (SingleAttempt env) w) (before : FailuresLogged w) : FailuresLogged w' := by
  cases step with
  | quiet c store invocations =>
    refine failuresLogged_congr before ?_ (by rw [store]) invocations
    intro r held
    rw [store] at held
    exact ⟨r,held,rfl,rfl,rfl,rfl⟩
  | cancelled ns id r r' stored steps state moves =>
    refine failuresLogged_congr before ?_ moves.definitions (by rw [moves.invocations,append_nil])
    intro other held
    rcases moves.stored_cases other held with rfl | ⟨_,old⟩
    · exact ⟨r,stored,moves.ns,moves.id,moves.workflow,by rw [Run.status,steps]; rfl⟩
    · exact ⟨other,old,rfl,rfl,rfl,rfl⟩
  | submitted input d r w₀ now named submitted moves =>
    intro other e held defined
    rcases moves.stored_cases other held with rfl | ⟨different,old⟩
    · rw [moves.definitions,submitted.definitions,moves.workflow,submitted.workflow,submitted.defined] at defined
      cases defined
      intro sd _ failed
      have distinct := accepted_ids_distinct (healthy.accepting.accepted submitted.defined)
      rcases submitted.started distinct sd.id .failed failed with wrong | wrong <;> cases wrong
    · rw [submitted.runs,if_neg different] at old
      rw [moves.definitions,submitted.definitions] at defined
      intro sd inside failed
      obtain ⟨one,logged⟩ := before other e old defined sd inside failed
      have same : w'.invocations = w.invocations ++ [] := by rw [moves.invocations,submitted.invocations]
      exact ⟨one,logged.trans (failures_mono rfl rfl same sd.id)⟩
  | processed w₁ leases taken dequeued batch =>
    have kept : FailuresLogged w₁ := by
      refine failuresLogged_congr before ?_ dequeued.definitions dequeued.invocations
      intro r held
      rw [dequeued.runs] at held
      exact ⟨r,held,rfl,rfl,rfl,rfl⟩
    refine (batch.invariant (Q := fun w => RunsOf (SingleAttempt env) w ∧ FailuresLogged w) ?_
      ⟨single.congr dequeued.runs dequeued.definitions,kept⟩).2
    intro _ _ _ _ _ _ _ _ _ step before
    exact ⟨step.moves.runsOf step.stored before.1,step_failuresLogged step before.1 before.2⟩

lemma healthy_honoured {w : World} (healthy : Healthy w) (logged : FailuresLogged w) : Honoured w := by
  intro r d stored defined sd inside
  obtain ⟨e,definition,tracked⟩ := healthy.consistent.tracked r stored
  rw [defined] at definition
  cases definition
  refine ⟨?_,?_⟩
  · rintro _ ⟨s,member,named,failed⟩
    have status : r.status sd.id = some .failed := by
      rw [← named,← failed]
      exact Workflow.stepStates_of_mem r.steps tracked.distinct s member
    obtain ⟨one,counted⟩ := logged r d stored defined sd inside status
    unfold attempts
    omega
  · have known : sd.id ∈ r.ids := by
      rw [tracked.ids]
      exact mem_map.mpr ⟨sd,inside,rfl⟩
    have once := tracked.once sd.id known
    unfold attempts
    omega

/-- In a history that submits only definitions whose handlers can be resolved and,
where they may fail, have a single attempt, the retry policy is honoured. -/
theorem retries_honoured (env : Env) (w : World) (history : List Call) (fresh : Fresh w)
    (single : Along (serve env) (Submits (SingleAttempt env)) w history) :
    ∀ before after, history = before ++ after → Honoured (before.foldl (serve env) w) := by
  intro before after split
  rw [split,Along.append] at single
  have start : Healthy w ∧ RunsOf (SingleAttempt env) w ∧ FailuresLogged w := by
    refine ⟨fresh.healthy,fresh.runsOf,?_⟩
    intro r d stored
    rw [fresh.runs] at stored
    cases stored
  have kept := Along.invariant (P := fun w => Healthy w ∧ RunsOf (SingleAttempt env) w ∧ FailuresLogged w)
    ?_ start single.1
  · exact healthy_honoured kept.1 kept.2.2
  · intro w c ⟨healthy,runs,logged⟩ admitted
    have step := call_step env w healthy c
    exact ⟨step.healthy healthy,step.runsOf runs admitted,call_failuresLogged step healthy runs logged⟩

def failingEnv : Env := { Env.steady with execute := fun _ _ _ => .error "boom" }

def onceDefinition : WorkflowDefinition where
  id := ⟨"default","once",1⟩
  steps := [{ id := "a", handler := "flaky", retry := ⟨1⟩ }]

def twiceDefinition : WorkflowDefinition where
  id := ⟨"default","twice",1⟩
  steps := [{ id := "a", handler := "flaky", retry := ⟨2⟩ }]

def onceHistory : List Call := [.submit { workflow := onceDefinition.id },.processLeases]

def twiceHistory : List Call := [.submit { workflow := twiceDefinition.id },.processLeases]

theorem once_honoured :
    Fresh (.holding onceDefinition) ∧
      Along (serve failingEnv) (Submits (SingleAttempt failingEnv)) (.holding onceDefinition) onceHistory ∧
      Honoured (onceHistory.foldl (serve failingEnv) (.holding onceDefinition)) := by
  have fresh := holding_fresh onceDefinition (by decide)
  have single :
      Along (serve failingEnv) (Submits (SingleAttempt failingEnv)) (.holding onceDefinition) onceHistory := by
    refine ⟨submits_holding _ onceDefinition ?_ _,trivial,trivial⟩
    intro sd inside
    rw [onceDefinition,mem_singleton] at inside
    subst inside
    exact ⟨rfl,.inl (by decide)⟩
  exact ⟨fresh,single,retries_honoured _ _ _ fresh single onceHistory [] (by simp)⟩

/-- One failing attempt ends a run whose policy asks for two. -/
theorem twice_fails_once :
    Fresh (.holding twiceDefinition) ∧
      (twiceHistory.foldl (serve failingEnv) (.holding twiceDefinition)).store.runs.rows.map
        (fun r => (r.state,r.steps.map (fun s => (s.stepID,s.state)),
          failures (twiceHistory.foldl (serve failingEnv) (.holding twiceDefinition)) r "a",r.workflow)) =
        [(.failed,[("a",.failed)],1,twiceDefinition.id)] ∧
      ¬ Honoured (twiceHistory.foldl (serve failingEnv) (.holding twiceDefinition)) := by
  have ended : (twiceHistory.foldl (serve failingEnv) (.holding twiceDefinition)).store.runs.rows.map
      (fun r => (r.state,r.steps.map (fun s => (s.stepID,s.state)),
        failures (twiceHistory.foldl (serve failingEnv) (.holding twiceDefinition)) r "a",r.workflow)) =
      [(.failed,[("a",.failed)],1,twiceDefinition.id)] := by
    decide
  refine ⟨holding_fresh twiceDefinition (by decide),ended,?_⟩
  intro honoured
  obtain ⟨r,rest,rows,fields,_⟩ := map_eq_cons_iff.mp ended
  simp only [Prod.mk.injEq] at fields
  obtain ⟨state,steps,counted,workflow⟩ := fields
  obtain ⟨s,others,inside,named,_⟩ := map_eq_cons_iff.mp steps
  simp only [Prod.mk.injEq] at named
  have stored := Filing.Table.lookup_of_mem
    (twiceHistory.foldl (serve failingEnv) (.holding twiceDefinition)).store.runs (v := r) (by rw [rows]; simp)
  have defined : (twiceHistory.foldl (serve failingEnv) (.holding twiceDefinition)).store.definitions.lookup
      r.workflow.key = some twiceDefinition := by
    rw [workflow]
    decide
  have early := (honoured r twiceDefinition stored defined { id := "a", handler := "flaky", retry := ⟨2⟩ }
    (by simp [twiceDefinition])).1 state ⟨s,by rw [inside]; simp,named⟩
  rw [counted] at early
  exact absurd early (by decide)

end Tempest.Retries
