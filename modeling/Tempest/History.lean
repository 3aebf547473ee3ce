import Tempest.Calls
import Tempest.Validation

/-! Histories of the sequential engine: any sequence of `Submit`, `Cancel` and
`ProcessLeases` calls, from a store that holds accepted definitions and no runs
yet. Each call is one of a few steps, and all of them keep the world healthy. -/
namespace Tempest
open Interaction Filing Progress Engine List

inductive Call
  | submit (input : RunInput)
  | cancel (ns : Namespace) (id : String)
  | processLeases

def serve (env : Env) (w : World) : Call → World
  | .submit input => ((submit input).run (exec env) w).2
  | .cancel ns id => ((cancel ns id).run (exec env) w).2
  | .processLeases => ((processLeases env).run (exec env) w).2

def Accepting (s : Store) : Prop :=
  ∀ k d, s.definitions.lookup k = some d →
    Validation.validateDefinitionSteps (d.steps.map Validation.ofStepDefinition) = .ok ()

lemma Accepting.congr {s s' : Store} (accepting : Accepting s) (same : s'.definitions = s.definitions) : Accepting s' := by
  unfold Accepting
  rw [same]
  exact accepting

structure Fresh (w : World) : Prop where
  accepting : Accepting w.store
  runs : w.store.runs = .empty
  queue : w.store.queue = .empty
  invocations : w.invocations = []

structure Healthy (w : World) : Prop where
  consistent : Consistent w
  accepting : Accepting w.store
  runIDs : ∀ r, w.store.runs.lookup r.key = some r → '/' ∉ r.id.toList

lemma Fresh.healthy {w : World} (fresh : Fresh w) : Healthy w := by
  have noRun : ∀ r : Run,w.store.runs.lookup r.key = some r → False := by
    intro r stored
    rw [fresh.runs] at stored
    cases stored
  refine ⟨⟨⟨?_,?_,?_⟩,?_⟩,fresh.accepting,?_⟩
  · intro q item found
    rw [fresh.queue] at found
    cases found
  · intro r _ _ _ stored
    exact absurd stored (noRun r)
  · intro call inside
    rw [fresh.invocations] at inside
    cases inside
  all_goals
    intro r stored
    exact absurd stored (noRun r)

lemma holding_only (d : WorkflowDefinition) (k : String) (e : WorkflowDefinition)
    (found : (World.holding d).store.definitions.lookup k = some e) : e = d := by
  have member := (World.holding d).store.definitions.lookup_mem found
  simpa [World.holding,Table.mem_insert,Store.new,Table.empty] using member

lemma holding_fresh (d : WorkflowDefinition)
    (accepted : Validation.validateDefinitionSteps (d.steps.map Validation.ofStepDefinition) = .ok ()) :
    Fresh (.holding d) := by
  refine ⟨?_,rfl,rfl,rfl⟩
  intro k e found
  rw [holding_only d k e found]
  exact accepted

section Accepted

variable {d : WorkflowDefinition}
  (accepted : Validation.Accepted (d.steps.map Validation.ofStepDefinition))

include accepted

lemma accepted_ids_distinct : (d.steps.map StepDefinition.id).Nodup := by
  have distinct := accepted.distinct
  rw [map_map] at distinct
  exact distinct

lemma accepted_ids_slash (id : String) (member : id ∈ d.steps.map StepDefinition.id) : '/' ∉ id.toList := by
  obtain ⟨sd,inside,rfl⟩ := mem_map.mp member
  exact accepted.slashFree (Validation.ofStepDefinition sd) (mem_map.mpr ⟨sd,inside,rfl⟩)

lemma accepted_declared (before : List String) (id : String) (after : List String)
    (split : d.steps.map StepDefinition.id = before ++ id :: after) :
    ∀ dep ∈ Workflow.dependencies d id,dep = id ∨ dep ∈ before := by
  obtain ⟨front,rest,steps,frontIDs,restIDs⟩ := map_eq_append_iff.mp split
  obtain ⟨sd,tail,restSteps,same,_⟩ := map_eq_cons_iff.mp restIDs
  subst same
  have member : sd ∈ d.steps := by
    rw [steps,restSteps]
    simp
  rw [Workflow.dependencies_of_mem d (accepted_ids_distinct accepted) sd member]
  intro dep depends
  have declared := accepted.declared (front.map Validation.ofStepDefinition) (Validation.ofStepDefinition sd)
    (tail.map Validation.ofStepDefinition) (by rw [steps,restSteps]; simp) dep depends
  rw [map_map] at declared
  rw [← frontIDs]
  exact declared

end Accepted

lemma Accepting.accepted {s : Store} (accepting : Accepting s) {k : String} {d : WorkflowDefinition}
    (found : s.definitions.lookup k = some d) : Validation.Accepted (d.steps.map Validation.ofStepDefinition) :=
  Validation.validateDefinitionSteps_ok _ (accepting k d found)

/-- What one call does to a healthy world. -/
inductive CallStep (env : Env) (w w' : World) : Call → Prop
  | quiet (c : Call) (store : w'.store = w.store) (invocations : w'.invocations = w.invocations) :
      CallStep env w w' c
  | cancelled (ns : Namespace) (id : String) (r r' : Run) (stored : w.store.runs.lookup r.key = some r)
      (steps : r'.steps = r.steps) (state : r'.state = .cancelled) (moves : Moves w w' r r' (w.item r) []) :
      CallStep env w w' (.cancel ns id)
  | submitted (input : RunInput) (d : WorkflowDefinition) (r : Run) (w₀ : World) (now : Time)
      (named : ∃ order, w.store.getDefinitionByName order input.workflow.ns input.workflow.name = .ok d)
      (submitted : Submitted w w₀ d r)
      (moves : Releases d r now w₀ w') : CallStep env w w' (.submit input)
  | processed (w₁ : World) (leases : List QueueLease) (taken : List QueueItem)
      (dequeued : Dequeued (env.clock w.tick) w w₁ leases taken)
      (batch : Batch env leases w₁ w') : CallStep env w w' .processLeases

lemma call_step (env : Env) (w : World) (healthy : Healthy w) (c : Call) : CallStep env w (serve env w c) c := by
  cases c with
  | submit input =>
    simp only [serve]
    rcases submit_spec env input w with ⟨e,w',runs,store,invocations⟩ | ⟨d,r,w₀,w',runs,submitted,named,_,moves⟩
    · rw [runs]
      exact .quiet _ store invocations
    · rw [runs]
      exact .submitted input d r w₀ _ ⟨_,named⟩ submitted moves
  | cancel ns id =>
    rcases cancel_spec env ns id w with ⟨store,invocations⟩ | ⟨r,r',stored,steps,state,moves⟩
    · exact .quiet _ store invocations
    · exact .cancelled ns id r r' stored steps state moves
  | processLeases =>
    simp only [serve]
    obtain ⟨w₁,w',leases,taken,runs,dequeued,_,batch⟩ := processLeases_batch env w healthy.consistent
    rw [runs]
    exact .processed w₁ leases taken dequeued batch

variable {r : Run} {items : String → Option QueueItem} {log : List Invocation} {leases : List QueueLease} {c : Call}

lemma Healthy.apart {w w₀ : World} {d : WorkflowDefinition} (healthy : Healthy w)
    (submitted : Submitted w w₀ d r) (other : Run) (id id' : String)
    (stored : w.store.runs.lookup other.key = some other) (known : id ∈ other.ids) (known' : id' ∈ r.ids) :
    queueKey other.ns other.id id ≠ queueKey r.ns r.id id' := by
  intro same
  obtain ⟨e,defined,tracked⟩ := healthy.consistent.tracked other stored
  have clean :=
    accepted_ids_slash (healthy.accepting.accepted defined) id (by rw [← tracked.ids]; exact known)
  have clean' :=
    accepted_ids_slash (healthy.accepting.accepted submitted.defined) id' (by rw [← submitted.ids]; exact known')
  obtain ⟨key,_⟩ := Text.join_injective "/" _ _ _ _ '/' rfl clean clean' same
  have equal : other.key = r.key := key
  rw [equal,submitted.absent] at stored
  cases stored

section Healthy

variable {env : Env} {w w' : World}

lemma Moves.runIDs {r' : Run} (moves : Moves w w' r r' items log) (stored : w.store.runs.lookup r.key = some r)
    (clean : ∀ other, w.store.runs.lookup other.key = some other → '/' ∉ other.id.toList) :
    ∀ other, w'.store.runs.lookup other.key = some other → '/' ∉ other.id.toList := by
  intro other held
  rcases moves.stored_cases other held with rfl | ⟨_,before⟩
  · rw [moves.id]
    exact clean r stored
  · exact clean other before

lemma Engine.LeaseStep.healthy {lease : QueueLease} {d : WorkflowDefinition} {sd : StepDefinition} {r' : Run}
    (step : LeaseStep env lease w w' d sd r r' items log) (healthy : Healthy w) : Healthy w' :=
  ⟨step.consistent',healthy.accepting.congr step.moves.definitions,step.moves.runIDs step.stored healthy.runIDs⟩

lemma CallStep.healthy (step : CallStep env w w' c) (healthy : Healthy w) : Healthy w' := by
  cases step with
  | quiet c store invocations =>
    refine ⟨healthy.consistent.congr store invocations,healthy.accepting.congr (by rw [store]),?_⟩
    rw [store]
    exact healthy.runIDs
  | cancelled ns id r r' stored steps state moves =>
    exact ⟨healthy.consistent.finish stored moves steps (by rw [state]; rfl),healthy.accepting.congr moves.definitions,
      moves.runIDs stored healthy.runIDs⟩
  | submitted input d r w₀ now named submitted moves =>
    have distinct := accepted_ids_distinct (healthy.accepting.accepted submitted.defined)
    refine ⟨submitted.keeps healthy.consistent (healthy.apart submitted) distinct moves,
      healthy.accepting.congr (moves.definitions.trans submitted.definitions),
      moves.runIDs (by rw [submitted.runs,if_pos rfl]) ?_⟩
    intro other held
    rw [submitted.runs] at held
    split_ifs at held with same
    · cases held
      obtain ⟨unixNano,id⟩ := submitted.id
      rw [id]
      exact Workflow.runID_slash unixNano
    · exact healthy.runIDs other held
  | processed w₁ leases taken dequeued batch =>
    refine batch.invariant LeaseStep.healthy
      ⟨dequeued.consistent healthy.consistent,healthy.accepting.congr dequeued.definitions,?_⟩
    rw [dequeued.runs]
    exact healthy.runIDs

end Healthy

def RunsOf (P : WorkflowDefinition → Prop) (w : World) : Prop :=
  ∀ r d, w.store.runs.lookup r.key = some r → w.store.definitions.lookup r.workflow.key = some d → P d

def Submits (P : WorkflowDefinition → Prop) (w : World) : Call → Prop
  | .submit input => ∀ order d,
    w.store.getDefinitionByName order input.workflow.ns input.workflow.name = .ok d → P d
  | _ => True

lemma submits_holding (P : WorkflowDefinition → Prop) (d : WorkflowDefinition) (holds : P d) (c : Call) :
    Submits P (.holding d) c := by
  cases c with
  | submit input =>
    intro order e found
    obtain ⟨stored,_⟩ := Store.getDefinitionByName_ok _ _ _ _ e found
    rw [holding_only d _ e stored]
    exact holds
  | cancel ns id | processLeases => exact trivial

section RunsOf

variable {P : WorkflowDefinition → Prop} {env : Env} {w w' : World}

lemma Moves.runsOf {r' : Run}
    (moves : Moves w w' r r' items log) (stored : w.store.runs.lookup r.key = some r) (before : RunsOf P w) :
    RunsOf P w' := by
  intro other d held defined
  rw [moves.definitions] at defined
  rcases moves.stored_cases other held with rfl | ⟨_,old⟩
  · rw [moves.workflow] at defined
    exact before r d stored defined
  · exact before other d old defined

lemma RunsOf.congr (before : RunsOf P w) (runs : w'.store.runs = w.store.runs)
    (definitions : w'.store.definitions = w.store.definitions) : RunsOf P w' := by
  unfold RunsOf
  rw [runs,definitions]
  exact before

lemma CallStep.runsOf (step : CallStep env w w' c) (before : RunsOf P w) (submits : Submits P w c) :
    RunsOf P w' := by
  cases step with
  | quiet c store invocations => exact before.congr (by rw [store]) (by rw [store])
  | cancelled ns id r r' stored steps state moves => exact moves.runsOf stored before
  | submitted input d r w₀ now named submitted moves =>
    refine moves.runsOf (by rw [submitted.runs,if_pos rfl]) ?_
    intro other e held defined
    rw [submitted.definitions] at defined
    rw [submitted.runs] at held
    split_ifs at held with same
    · cases held
      rw [submitted.workflow,submitted.defined] at defined
      cases defined
      obtain ⟨order,found⟩ := named
      exact submits order d found
    · exact before other e held defined
  | processed w₁ leases taken dequeued batch =>
    exact batch.invariant (fun step => step.moves.runsOf step.stored) (before.congr dequeued.runs dequeued.definitions)

lemma Fresh.runsOf (fresh : Fresh w) : RunsOf P w := by
  intro r d stored
  rw [fresh.runs] at stored
  cases stored

lemma history_runsOf (history : List Call) (fresh : Fresh w)
    (submits : Along (serve env) (Submits P) w history) :
    Healthy (history.foldl (serve env) w) ∧ RunsOf P (history.foldl (serve env) w) := by
  refine Along.invariant (P := fun w => Healthy w ∧ RunsOf P w) ?_ ⟨fresh.healthy,fresh.runsOf⟩ submits
  intro w c ⟨healthy,before⟩ admitted
  have step := call_step env w healthy c
  exact ⟨step.healthy healthy,step.runsOf before admitted⟩

end RunsOf

end Tempest
