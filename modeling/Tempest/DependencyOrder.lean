import Tempest.History

/-! Dependency order. A handler is called for a step that was queued, and in a
sound status a step is queued only once everything it depends on is done. -/
namespace Tempest.DependencyOrder
open Progress Engine Workflow List

/-- When the handler was called, every step that the called step depends on was
stored as SUCCEEDED or SKIPPED. -/
def DependenciesDone (call : Invocation) : Prop :=
  ∃ r d sd, call.store.getRun call.ns call.runID = .ok r ∧ call.store.getDefinition r.workflow = .ok d ∧
    findStepDef d call.stepID = some sd ∧ ∀ dep ∈ sd.dependsOn,
      dep ∈ r.ids ∧ ∀ s ∈ r.steps, s.stepID = dep → s.state = .succeeded ∨ s.state = .skipped

lemma done_state {steps : List StepRun} (distinct : (steps.map StepRun.stepID).Nodup) (dep : String)
    (done : Done (stepStates steps) dep) :
    dep ∈ steps.map StepRun.stepID ∧ ∀ s ∈ steps,s.stepID = dep → s.state = .succeeded ∨ s.state = .skipped := by
  refine ⟨?_,?_⟩
  · by_contra absent
    unfold Done at done
    rw [stepStates_absent steps dep absent] at done
    cases done
  · intro s member named
    unfold Done at done
    rw [← named,stepStates_of_mem steps distinct s member] at done
    cases state : s.state <;> simp_all [StepState.isDone]

section Lease

variable {env : Env} {lease : QueueLease} {w w' : World} {d : WorkflowDefinition}
  {sd : StepDefinition} {r r' : Run} {items : String → Option QueueItem} {log : List Invocation}

lemma started_done (step : LeaseStep env lease w w' d sd r r' items log) (call : Invocation)
    (started : Started w r lease.item.stepID call) : DependenciesDone call := by
  obtain ⟨marked,stored,workflow,became⟩ := started.marked
  have distinct := step.tracked.distinct
  have status := became.status distinct step.member
  have named : sd.id = lease.item.stepID := by simpa using find?_some step.named
  have dependsOn : dependencies d lease.item.stepID = sd.dependsOn := by
    rw [← named]
    exact dependencies_of_mem d (by rw [← step.tracked.ids]; exact distinct) sd
      (mem_of_find?_eq_some step.named)
  refine ⟨marked,d,sd,?_,?_,by rw [started.stepID]; exact step.named,?_⟩
  · have key : runKey r.ns r.id = r.key := rfl
    rw [Store.getRun,started.ns,started.runID,key,stored]
  · rw [Store.getDefinition,started.definitions,workflow,step.defined]
  · intro dep depends
    have done := (step.tracked.sound.released _ _ step.queued).mp (by decide) dep (by rw [dependsOn]; exact depends)
    have undone : ¬ Done r.status lease.item.stepID := by
      unfold Done
      rw [step.queued]
      decide
    have still := update_done_mono lease.item.stepID undone .running dep done
    rw [Run.status,← status] at still
    exact done_state (by rw [became.ids]; exact distinct) dep still

lemma step_done (step : LeaseStep env lease w w' d sd r r' items log)
    (before : ∀ call ∈ w.invocations,DependenciesDone call) : ∀ call ∈ w'.invocations,DependenciesDone call := by
  intro call inside
  rw [step.moves.invocations,mem_append] at inside
  rcases inside with old | new
  · exact before call old
  · rcases step.settled.2 with ⟨made,started,logged,_⟩ | ⟨⟨_,none⟩ | ⟨made,started,logged,_⟩,_⟩
    · rw [logged,mem_singleton] at new
      subst new
      exact started_done step call started
    · rw [none] at new
      cases new
    · rw [logged,mem_singleton] at new
      subst new
      exact started_done step call started

end Lease

lemma call_done {env : Env} {w w' : World} {c : Call} (step : CallStep env w w' c)
    (before : ∀ call ∈ w.invocations,DependenciesDone call) : ∀ call ∈ w'.invocations,DependenciesDone call := by
  cases step with
  | quiet c store invocations =>
    rw [invocations]
    exact before
  | cancelled ns id r r' stored steps state moves =>
    rw [moves.invocations,append_nil]
    exact before
  | submitted input d r w₀ now named submitted moves =>
    rw [moves.invocations,append_nil,submitted.invocations]
    exact before
  | processed w₁ leases taken dequeued batch =>
    refine batch.invariant step_done ?_
    rw [dequeued.invocations]
    exact before

/-- In every history of the sequential engine, a handler is called only when all
steps that the step depends on are stored as done. -/
theorem handlers_wait (env : Env) (w : World) (history : List Call) (fresh : Fresh w) :
    ∀ call ∈ (history.foldl (serve env) w).invocations, DependenciesDone call := by
  have start : Healthy w ∧ ∀ call ∈ w.invocations,DependenciesDone call :=
    ⟨fresh.healthy,by rw [fresh.invocations]; simp⟩
  refine (List.foldlRecOn (motive := fun w => Healthy w ∧ ∀ call ∈ w.invocations,DependenciesDone call)
    history (serve env) start ?_).2
  intro w ⟨healthy,before⟩ c _
  have step := call_step env w healthy c
  exact ⟨step.healthy healthy,call_done step before⟩

def chainDefinition : WorkflowDefinition where
  id := ⟨"default","chain",1⟩
  steps := [{ id := "a", handler := "pass" },{ id := "b", handler := "pass", dependsOn := ["a"] }]

def chainHistory : List Call :=
  [.submit { workflow := chainDefinition.id },.processLeases,.cancel "default" ":2",.processLeases]

theorem chain_waits :
    Fresh (.holding chainDefinition) ∧
      (chainHistory.foldl (serve .steady) (.holding chainDefinition)).invocations.map Invocation.stepID = ["a","b"] ∧
      ∀ call ∈ (chainHistory.foldl (serve .steady) (.holding chainDefinition)).invocations,
        DependenciesDone call := by
  have fresh := holding_fresh chainDefinition (by decide)
  exact ⟨fresh,by decide,handlers_wait _ _ _ fresh⟩

end Tempest.DependencyOrder
