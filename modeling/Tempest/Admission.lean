import Mathlib.Algebra.Order.BigOperators.Group.List
import Tempest.Grpc
import Tempest.Completion

/-! Definitions that come in over one of the two entries and are then submitted.
Neither entry checks the steps, so what decides is whether they are arranged, whatever
else the store holds and whatever else is queued. -/
namespace Tempest.Admission
open Interaction Filing Engine Arrangement Completion Workflow

/-- A request to create a definition, over HTTP or gRPC. -/
inductive Entry
  | http (codec : Codec) (req : Api.Request)
  | grpc (name : String) (version : Int) (steps : List Grpc.StepSpec)

def Entry.after (env : Env) (w : World) : Entry → World
  | .http codec req => ((Api.createDefinition codec req).run (exec env) w).2
  | .grpc name version steps => ((Grpc.createDefinition name version steps).run (exec env) w).2

/-- The definition is in the store because of the request. -/
structure Admits (env : Env) (entry : Entry) (w : World) (d : WorkflowDefinition) : Prop where
  before : w.store.definitions.lookup d.key ≠ some d
  after : (entry.after env w).store.definitions.lookup d.key = some d

/-- The run under `k` can still be brought to SUCCEEDED by calls of `ProcessLeases`,
each step of its definition being executed once by them. -/
def Completes (d : WorkflowDefinition) (k : String) (w : World) : Prop :=
  ∃ env : Env, env.Reliable ∧ ∃ n r, (polled env n w).store.runs.lookup k = some r ∧ r.state = .succeeded ∧
    ∀ sd ∈ d.steps, (polled env n w).executions r sd.id = w.executions r sd.id + 1

def Runnable (w : World) (d : WorkflowDefinition) : Prop :=
  ∀ (env : Env) (input : RunInput) (id : String) (w' : World) (r : Run),
    (submit { input with workflow := d.id }).run (exec env) w = (.ok id,w') →
      w'.store.runs.lookup (runKey d.id.ns id) = some r → r.workflow = d.id → Completes d r.key w'

def Superseded (w : World) (d : WorkflowDefinition) : Prop :=
  ∃ newer ∈ w.store.definitions.rows, newer.id.ns = d.id.ns ∧ newer.id.name = d.id.name ∧
    d.id.version < newer.id.version

instance (w : World) (d : WorkflowDefinition) : Decidable (Superseded w d) := by
  unfold Superseded
  infer_instance

lemma runID_length (m : Nat) : m < (runID (16 ^ m : Nat)).length := by
  have digits : m < (Nat.toDigits 16 (16 ^ m)).length := by
    by_cases zero : m = 0
    · subst zero
      decide
    · by_contra short
      have bound := (Nat.length_toDigits_le_iff (by decide) (by omega)).mp (not_lt.mp short)
      omega
  have text : (runID (16 ^ m : Nat)).length = 1 + (Nat.toDigits 16 (16 ^ m)).length := by
    simp [runID,hex]
    rfl
  omega

lemma exists_fresh (taken : List String) (ns : Namespace) : ∃ m : Nat,runKey ns (runID (16 ^ m : Nat)) ∉ taken := by
  let m := (taken.map String.length).sum
  refine ⟨m,?_⟩
  intro member
  have long := runID_length m
  have bound : (runKey ns (runID (16 ^ m : Nat))).length ≤ m :=
    List.le_sum_of_mem (List.mem_map.mpr ⟨_,member,rfl⟩)
  rw [runKey,String.length_append] at bound
  omega

section Submission

variable {w : World} {d : WorkflowDefinition} (stored : w.store.definitions.lookup d.key = some d)

include stored

lemma submitted_of_workflow {env : Env} {input : RunInput} {id : String} {w' : World} {r : Run}
    (accepted : (submit { input with workflow := d.id }).run (exec env) w = (.ok id,w'))
    (found : w'.store.runs.lookup (runKey d.id.ns id) = some r) (workflow : r.workflow = d.id) :
    ¬ Superseded w d ∧ ∃ r₀ w₀,Submitted w w₀ d r₀ ∧ r.key = r₀.key ∧
      Releases d r₀ (env.clock w₀.tick) w₀ w' := by
  rcases submit_spec env { input with workflow := d.id } w with
    ⟨e,_,refused,_⟩ | ⟨d₁,r₀,w₀,w₁,runs,submitted,named,_,moves⟩
  · rw [accepted] at refused
    cases refused
  · rw [accepted] at runs
    cases runs
    obtain ⟨defined,ns,_⟩ := Store.getDefinitionByName_ok _ _ _ _ d₁ named
    have key : runKey d.id.ns r₀.id = r₀.key := by
      rw [Run.key,submitted.ns,ns]
    rw [key] at found
    have same : r₀.released d₁ = r := Option.some.inj (moves.stored.symm.trans found)
    have ids : d₁.id = d.id := by
      rw [← workflow,← same,moves.workflow,submitted.workflow]
    have equal : d₁ = d := by
      rw [ids] at defined
      exact Option.some.inj (defined.symm.trans stored)
    subst equal
    refine ⟨?_,r₀,w₀,submitted,by rw [← same]; rfl,moves⟩
    rintro ⟨newer,inside,sameNs,sameName,version⟩
    have bound := Store.getDefinitionByName_latest _ _ _ _ d₁ newer named inside ⟨sameNs,sameName⟩
    omega

lemma exists_submission (newest : ¬ Superseded w d) (nonempty : d.steps ≠ []) :
    ∃ (env : Env) (r : Run) (w₀ w' : World),
      (submit { workflow := d.id,payload := [] }).run (exec env) w = (.ok r.id,w') ∧ Submitted w w₀ d r ∧
      (∀ q item,w.store.queue.lookup q = some item → runKey item.ns item.runID ≠ r.key) ∧
      Releases d r (env.clock w₀.tick) w₀ w' := by
  -- the run gets an id under which nothing is stored and nothing is queued
  obtain ⟨m,fresh⟩ := exists_fresh (w.store.runs.rows.map Run.key ++
    w.store.queue.rows.map (fun item => runKey item.ns item.runID)) d.id.ns
  rw [List.mem_append,not_or] at fresh
  obtain ⟨unstored,unqueued⟩ := fresh
  have free : w.store.runs.lookup (runKey d.id.ns (runID (16 ^ m : Nat))) = none := by
    rw [Table.lookup_eq_none]
    intro r inside same
    exact unstored (List.mem_map.mpr ⟨r,inside,same⟩)
  let env : Env := { Env.steady with wall := fun _ => (16 ^ m) }
  have named : w.store.getDefinitionByName (env.order (w.tick + 1)) d.id.ns d.id.name = .ok d := by
    refine Store.getDefinitionByName_newest w.store _ d stored ?_
    intro other inside ns name
    by_contra newer
    exact newest ⟨other,inside,ns,name,by omega⟩
  have run : newRun d { workflow := d.id,payload := [] } (env.clock w.tick) (env.wall (w.tick + 2)) =
      .ok {
        id := runID (16 ^ m),ns := d.id.ns,workflow := d.id,state := .pending
        input := { workflow := d.id,payload := [] }
        steps := d.steps.map (fun sd => { stepID := sd.id,state := .pending }),createdAt := env.clock w.tick } := by
    simp only [newRun,if_neg nonempty]
    rfl
  obtain ⟨w₀,created,continues⟩ := submit_created env { workflow := d.id,payload := [] } w d _ named run free
  obtain ⟨r,w',id,runs,submitted,_,moves⟩ := created.spec env continues
  refine ⟨env,r,w₀,w',runs,submitted,?_,moves⟩
  intro q item found same
  rw [Run.key,submitted.ns,id] at same
  exact unqueued (List.mem_map.mpr ⟨item,w.store.queue.lookup_mem found,same⟩)

lemma runnable_iff :
    Runnable w d ↔ Superseded w d ∨ d.steps = [] ∨ Arranged d := by
  constructor
  · intro runnable
    by_contra bad
    push Not at bad
    obtain ⟨newest,nonempty,unarranged⟩ := bad
    obtain ⟨env,r,w₀,w',accepted,submitted,others,moves⟩ := exists_submission stored newest nonempty
    have begun := begun_of_submitted submitted others moves
    have key : runKey d.id.ns r.id = r.key := by
      rw [Run.key,submitted.ns]
    obtain ⟨env',reliable,n,r',found,succeeded,_⟩ := runnable env { workflow := d.id,payload := [] } r.id w'
      (r.released d) accepted (by rw [key]; exact begun.stored)
      submitted.workflow
    obtain ⟨r'',begun',reached⟩ := begun.iterate reliable n
    have same := Option.some.inj (reached.stored.symm.trans found)
    rw [← same] at succeeded
    exact unarranged (reached.arranged succeeded)
  · intro good env input id w' r accepted found workflow
    obtain ⟨newest,r₀,w₀,submitted,key,moves⟩ := submitted_of_workflow stored accepted found workflow
    rcases good with superseded | empty | arranged
    · exact absurd superseded newest
    · exact absurd empty submitted.nonempty
    · obtain ⟨order,ordered,listed⟩ := arranged.order
      obtain ⟨env',serving⟩ := exists_serving (env.clock w₀.tick + 1) (order.map (queueKey r₀.ns r₀.id))
      have underway := underway_of_submitted submitted moves arranged.distinct ordered listed
      obtain ⟨n,r',ns,id,reached⟩ := underway.finishes serving
      rw [key]
      refine ⟨env',serving.toReliable,n,r',reached.stored,reached.finished rfl,?_⟩
      intro sd member
      rw [(reached.ended sd.id (listed.mem_iff.mpr (List.mem_map.mpr ⟨sd,member,rfl⟩))).2.2,World.executions,
        World.executions,ns,id,moves.ns,moves.id]

end Submission

/-- For every request that stores a definition, whatever else is stored and queued: its
runs can be completed exactly if a newer version stands in front of it, if it has no
steps and is refused by `Submit`, or if its steps are arranged. -/
theorem admitted_runnable_iff (env : Env) (entry : Entry) (w : World) (d : WorkflowDefinition)
    (admits : Admits env entry w d) :
    Runnable (entry.after env w) d ↔ Superseded (entry.after env w) d ∨ d.steps = [] ∨ Arranged d :=
  runnable_iff admits.after

def codecOf (body : V1.WorkflowDefinition) : Codec where
  workflowDefinition := fun _ => .ok body
  parseDuration := fun _ => none
  durationString := fun _ => "0s"

def createRequest : Api.Request := { path := "/v1/registry/definitions" }

def chainSteps : List Grpc.StepSpec := [⟨"a","pass",[],0⟩,⟨"b","pass",["a"],0⟩]

/-- Another run's step is queued. -/
def busy : World where
  store := { Store.new with queue := Store.new.queue.insert ⟨"run-1","default","a",0,0,0⟩ }

theorem chain_runnable :
    Admits .steady (.grpc "chain" 1 chainSteps) busy (Grpc.definitionOf "chain" 1 chainSteps) ∧
      Runnable (Entry.after .steady busy (.grpc "chain" 1 chainSteps)) (Grpc.definitionOf "chain" 1 chainSteps) := by
  have admits : Admits .steady (.grpc "chain" 1 chainSteps) busy (Grpc.definitionOf "chain" 1 chainSteps) :=
    ⟨by decide,by decide⟩
  have arranged : Arranged (Grpc.definitionOf "chain" 1 chainSteps) :=
    ⟨by decide,by decide,fun id => if id = "a" then 0 else 1,by decide⟩
  exact ⟨admits,(admitted_runnable_iff .steady _ busy _ admits).mpr (.inr (.inr arranged))⟩

def loopBody : V1.WorkflowDefinition where
  name := "loop"
  version := 1
  ns := "default"
  steps := [{ id := "a", handler := "pass", depends := ["b"] },{ id := "b", handler := "pass", depends := ["a"] }]

def loopSteps : List Grpc.StepSpec := [⟨"a","pass",["b"],0⟩,⟨"b","pass",["a"],0⟩]

lemma not_arranged_of_loop {d : WorkflowDefinition} (x y : StepDefinition) (first : x ∈ d.steps) (second : y ∈ d.steps)
    (waits : y.id ∈ x.dependsOn) (back : x.id ∈ y.dependsOn) : ¬ Arranged d := by
  intro arranged
  obtain ⟨rank,smaller⟩ := arranged.acyclic
  have below := smaller x first y.id waits
  have above := smaller y second x.id back
  omega

/-- Both entries store the loop, and no execution of its run completes it. -/
theorem loop_admitted :
    (Admits .steady (.http (codecOf loopBody) createRequest) { store := .new }
        (Api.definitionOf (codecOf loopBody) loopBody 0 1) ∧
      ¬ Runnable (Entry.after .steady { store := .new } (.http (codecOf loopBody) createRequest))
        (Api.definitionOf (codecOf loopBody) loopBody 0 1)) ∧
    Admits .steady (.grpc "loop" 1 loopSteps) { store := .new } (Grpc.definitionOf "loop" 1 loopSteps) ∧
      ¬ Runnable (Entry.after .steady { store := .new } (.grpc "loop" 1 loopSteps))
        (Grpc.definitionOf "loop" 1 loopSteps) := by
  refine ⟨⟨⟨by decide,by decide⟩,?_⟩,⟨by decide,by decide⟩,?_⟩
  all_goals
    rw [runnable_iff (by decide)]
    rintro (superseded | empty | arranged)
    · exact absurd superseded (by decide)
    · cases empty
    · exact not_arranged_of_loop { id := "a", handler := "pass", dependsOn := ["b"] }
        { id := "b", handler := "pass", dependsOn := ["a"] } (by decide) (by decide) (by decide) (by decide) arranged

end Tempest.Admission
