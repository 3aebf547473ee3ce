import Tempest.GraphMutator

/-! `Diff` compares the nodes of two graphs. It has fields for edges and never fills them. -/
open List
namespace Tempest.GraphMutator
open Association

/-- Edges are pairs of a parent and a child. -/
structure GraphDiff where
  addedNodes : List String
  removedNodes : List String
  addedEdges : List (String × String) := []
  removedEdges : List (String × String) := []
  deriving DecidableEq

namespace DAG

def diff (d other : DAG) (visits visits' : List String) : GraphDiff where
  addedNodes := (visits'.filter (fun id => id ∉ d.ids)).insertionSort (· ≤ ·)
  removedNodes := (visits.filter (fun id => id ∉ other.ids)).insertionSort (· ≤ ·)

def Edge (d : DAG) (edge : String × String) : Prop := d.DependsOn edge.2 edge.1

def nodesAfter (d : DAG) (diff : GraphDiff) (id : String) : Prop := (id ∈ d.ids ∧ id ∉ diff.removedNodes) ∨ id ∈ diff.addedNodes

def edgesAfter (d : DAG) (diff : GraphDiff) (edge : String × String) : Prop :=
  (d.Edge edge ∧ edge ∉ diff.removedEdges ∧ edge.1 ∉ diff.removedNodes ∧ edge.2 ∉ diff.removedNodes) ∨ edge ∈ diff.addedEdges

/-- The diff leads from one graph to the other, and is empty only between graphs with the same
nodes and edges. -/
structure Complete (d other : DAG) (diff : GraphDiff) : Prop where
  nodes : ∀ id, d.nodesAfter diff id ↔ id ∈ other.ids
  edges : ∀ edge, d.edgesAfter diff edge ↔ other.Edge edge
  empty : diff = ⟨[],[],[],[]⟩ ↔ (∀ id, id ∈ d.ids ↔ id ∈ other.ids) ∧ ∀ edge, d.Edge edge ↔ other.Edge edge

variable {d other : DAG} {visits visits' : List String} (visited : visits.Perm d.ids) (visited' : visits'.Perm other.ids)

include visited in
lemma mem_removedNodes {id : String} : id ∈ (d.diff other visits visits').removedNodes ↔ id ∈ d.ids ∧ id ∉ other.ids := by
  rw [diff,mem_insertionSort,mem_filter,visited.mem_iff,decide_eq_true_iff]

include visited' in
lemma mem_addedNodes {id : String} : id ∈ (d.diff other visits visits').addedNodes ↔ id ∈ other.ids ∧ id ∉ d.ids := by
  rw [diff,mem_insertionSort,mem_filter,visited'.mem_iff,decide_eq_true_iff]

include visited visited' in
lemma diff_empty_iff : d.diff other visits visits' = ⟨[],[],[],[]⟩ ↔ ∀ id,id ∈ d.ids ↔ id ∈ other.ids := by
  constructor
  · intro empty id
    have removed : id ∈ (d.diff other visits visits').removedNodes ↔ _ := mem_removedNodes visited
    have added : id ∈ (d.diff other visits visits').addedNodes ↔ _ := mem_addedNodes visited'
    rw [empty] at removed added
    constructor
    · intro member
      by_contra absent
      cases removed.mpr ⟨member,absent⟩
    · intro member
      by_contra absent
      cases added.mpr ⟨member,absent⟩
  · intro same
    have removed : (d.diff other visits visits').removedNodes = [] := by
      apply eq_nil_iff_forall_not_mem.mpr
      intro id member
      obtain ⟨old,gone⟩ := (mem_removedNodes visited).mp member
      exact gone ((same id).mp old)
    have added : (d.diff other visits visits').addedNodes = [] := by
      apply eq_nil_iff_forall_not_mem.mpr
      intro id member
      obtain ⟨new,absent⟩ := (mem_addedNodes visited').mp member
      exact absent ((same id).mpr new)
    rw [GraphDiff.mk.injEq]
    exact ⟨added,removed,rfl,rfl⟩

/-- A diff is complete exactly if the other graph has the edges of the first one, less those of
nodes that it does not have. -/
theorem diff_complete_iff (d other : DAG) {visits visits' : List String} (visited : visits.Perm d.ids)
    (visited' : visits'.Perm other.ids) :
    Complete d other (d.diff other visits visits') ↔
      ∀ edge, other.Edge edge ↔ d.Edge edge ∧ (edge.1 ∈ d.ids → edge.1 ∈ other.ids) ∧ edge.2 ∈ other.ids := by
  have edges : ∀ edge,d.edgesAfter (d.diff other visits visits') edge ↔
      d.Edge edge ∧ (edge.1 ∈ d.ids → edge.1 ∈ other.ids) ∧ edge.2 ∈ other.ids := by
    intro edge
    rw [edgesAfter,mem_removedNodes visited,mem_removedNodes visited]
    constructor
    · rintro (⟨old,-,parent,child⟩ | added)
      · push Not at parent child
        exact ⟨old,parent,child (mem_ids_of_dependsOn old)⟩
      · cases added
    · rintro ⟨old,parent,child⟩
      exact .inl ⟨old,not_mem_nil,fun gone => gone.2 (parent gone.1),fun gone => gone.2 child⟩
  constructor
  · intro complete edge
    rw [← complete.edges,edges]
  · intro kept
    refine ⟨?_,?_,?_⟩
    · intro id
      rw [nodesAfter,mem_removedNodes visited,mem_addedNodes visited']
      tauto
    · intro edge
      rw [edges,kept]
    · rw [diff_empty_iff visited visited']
      refine ⟨fun same => ⟨same,fun edge => ?_⟩,And.left⟩
      rw [kept]
      exact ⟨fun old => ⟨old,(same _).mp,(same _).mp (mem_ids_of_dependsOn old)⟩,And.left⟩

def loose : DAG := ⟨[("a",⟨"a","TASK",[],[]⟩),("b",⟨"b","TASK",[],[]⟩)],by unfold Sorted; decide⟩

/-- A node more than in `chain`, which depends on the first one. -/
def longer : DAG :=
  ⟨[("a",⟨"a","TASK",[],["b"]⟩),("b",⟨"b","TASK",[],[]⟩),("c",⟨"c","TASK",[],["a"]⟩)],by unfold Sorted; decide⟩

theorem diff_complete_longer :
    longer.diff chain ["c","a","b"] ["b","a"] = ⟨[],["c"],[],[]⟩ ∧
      Complete longer chain (longer.diff chain ["c","a","b"] ["b","a"]) := by
  have kept : ∀ id ∈ chain.ids,∀ dep ∈ chain.dependencies id,dep ∈ longer.dependencies id ∧ dep ∈ chain.ids := by decide
  have only : ∀ id ∈ chain.ids,∀ dep ∈ longer.dependencies id,dep ∈ chain.dependencies id := by decide
  refine ⟨by decide,(diff_complete_iff longer chain (by decide) (by decide)).mpr fun edge => ⟨fun wired => ?_,?_⟩⟩
  · have child := mem_ids_of_dependsOn wired
    obtain ⟨before,parent⟩ := kept _ child _ wired
    exact ⟨before,fun _ => parent,child⟩
  · rintro ⟨wired,-,child⟩
    exact only _ child _ wired

/-- Graphs with the same nodes have an empty diff, whatever their edges are. -/
theorem diff_misses_edges :
    ["a","b"].Perm chain.ids ∧ ["a","b"].Perm loose.ids ∧ chain.diff loose ["a","b"] ["a","b"] = ⟨[],[],[],[]⟩ ∧
      chain.Edge ("b","a") ∧ ¬ loose.Edge ("b","a") := by
  unfold Edge DependsOn
  decide

end DAG

end Tempest.GraphMutator
