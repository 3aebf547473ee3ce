import Tempest.History

/-! Stuck runs. `ValidateDefinitionSteps` declares a step before it checks what the
step depends on, so it accepts a step that depends on itself, and such a step is
never released. Without one, the order of the definition is an order of its
dependencies, and a run that is not terminal has a queued step. -/
namespace Tempest.StuckRuns
open Interaction Progress Dependency Engine

/-- Every run that is not terminal has a queue item for one of its steps, and every
step stored as QUEUED has one. -/
def Unstuck (w : World) : Prop :=
  ∀ r, w.store.runs.lookup r.key = some r →
    (r.state.isTerminal = false → ∃ s ∈ r.steps, (w.item r s.stepID).isSome) ∧
      ∀ s ∈ r.steps, s.state = .queued → (w.item r s.stepID).isSome

def Selfless (d : WorkflowDefinition) : Prop := ∀ sd ∈ d.steps, sd.id ∉ sd.dependsOn

lemma selfless_ordered {d : WorkflowDefinition}
    (accepted : Validation.Accepted (d.steps.map Validation.ofStepDefinition)) (selfless : Selfless d) :
    Ordered (Workflow.dependencies d) (d.steps.map StepDefinition.id) := by
  intro before id after split dep depends
  rcases accepted_declared accepted before id after split dep depends with own | earlier
  · subst own
    have member : dep ∈ d.steps.map StepDefinition.id := by
      rw [split]
      simp
    obtain ⟨sd,inside,rfl⟩ := List.mem_map.mp member
    rw [Workflow.dependencies_of_mem d (accepted_ids_distinct accepted) sd inside] at depends
    exact absurd depends (selfless sd inside)
  · exact earlier

lemma healthy_unstuck {w : World} (healthy : Healthy w) (selfless : RunsOf Selfless w) : Unstuck w := by
  intro r stored
  obtain ⟨d,defined,tracked⟩ := healthy.consistent.tracked r stored
  have states := Workflow.stepStates_of_mem r.steps tracked.distinct
  refine ⟨?_,?_⟩
  · intro running
    obtain ⟨unfailed,undone⟩ := tracked.unfinished running
    have ordered : Ordered (Workflow.dependencies d) r.ids := by
      rw [tracked.ids]
      exact selfless_ordered (healthy.accepting.accepted defined) (selfless r d stored defined)
    have known : ∀ id ∈ r.ids,(r.status id).isSome := fun _ member => status_isSome r tracked.distinct member
    obtain ⟨id,member,queued⟩ := exists_queued tracked.sound r.ids ordered known unfailed undone
    obtain ⟨s,inside,rfl⟩ := List.mem_map.mp member
    exact ⟨s,inside,(tracked.queued _ member).mp queued⟩
  · intro s inside queued
    refine (tracked.queued s.stepID (List.mem_map.mpr ⟨s,inside,rfl⟩)).mp ?_
    rw [Run.status,states s inside,queued]

/-- In a history that submits only definitions in which no step depends on itself,
no state has a stuck run. -/
theorem never_stuck (env : Env) (w : World) (history : List Call) (fresh : Fresh w)
    (selfless : Along (serve env) (Submits Selfless) w history) :
    ∀ before after, history = before ++ after → Unstuck (before.foldl (serve env) w) := by
  intro before after split
  rw [split,Along.append] at selfless
  obtain ⟨healthy,runs⟩ := history_runsOf before fresh selfless.1
  exact healthy_unstuck healthy runs

def pairDefinition : WorkflowDefinition where
  id := ⟨"default","pair",1⟩
  steps := [{ id := "a", handler := "pass" },{ id := "b", handler := "pass", dependsOn := ["a"] }]

def pairHistory : List Call := [.submit { workflow := pairDefinition.id },.processLeases]

theorem pair_unstuck :
    Fresh (.holding pairDefinition) ∧ Along (serve .steady) (Submits Selfless) (.holding pairDefinition) pairHistory ∧
      Unstuck (pairHistory.foldl (serve .steady) (.holding pairDefinition)) := by
  have fresh := holding_fresh pairDefinition (by decide)
  have selfless : Along (serve .steady) (Submits Selfless) (.holding pairDefinition) pairHistory := by
    refine ⟨submits_holding Selfless pairDefinition ?_ _,trivial,trivial⟩
    unfold Selfless
    decide
  exact ⟨fresh,selfless,never_stuck _ _ _ fresh selfless pairHistory [] (by simp)⟩

def selfDefinition : WorkflowDefinition where
  id := ⟨"default","self",1⟩
  steps := [{ id := "a", handler := "pass", dependsOn := ["a"] }]

def selfHistory : List Call := [.submit { workflow := selfDefinition.id }]

/-- An accepted definition whose run is stored as QUEUED while the queue is empty. -/
theorem self_stuck :
    Fresh (.holding selfDefinition) ∧
      (selfHistory.foldl (serve .steady) (.holding selfDefinition)).store.runs.rows.map Run.state = [.queued] ∧
      (selfHistory.foldl (serve .steady) (.holding selfDefinition)).store.queue.rows = [] ∧
      ¬ Unstuck (selfHistory.foldl (serve .steady) (.holding selfDefinition)) := by
  have empty : (selfHistory.foldl (serve .steady) (.holding selfDefinition)).store.queue.rows = [] := by decide
  have state :
      (selfHistory.foldl (serve .steady) (.holding selfDefinition)).store.runs.rows.map Run.state = [.queued] := by
    decide
  refine ⟨holding_fresh selfDefinition (by decide),state,empty,?_⟩
  intro unstuck
  obtain ⟨r,rest,rows,queued,_⟩ := List.map_eq_cons_iff.mp state
  have stored := Filing.Table.lookup_of_mem
    (selfHistory.foldl (serve .steady) (.holding selfDefinition)).store.runs (v := r) (by rw [rows]; simp)
  obtain ⟨s,_,present⟩ := (unstuck r stored).1 (by rw [queued]; rfl)
  rw [World.item,Filing.Table.lookup] at present
  cases present

end Tempest.StuckRuns
