import Tempest.DagInvariant
import Tempest.Lib.Association
import Tempest.Lib.Kahn
import Mathlib.Data.String.Basic

/-! The topological sort of `internal/dag`. It counts the edges into each name over all
lists of `edges`, so that a list which still has a removed node adds a name to the
counts that is not a node, and the result is too long. -/
open List
namespace Tempest.Dag
open Filing Slices Interaction Association Relation

namespace Graph

variable (g : Graph)

def count (m : List (String × Int)) (dst : String) : List (String × Int) := put dst ((find dst m).getD 0 + 1) m

/-- The map `inDegree` after both loops, which range over the nodes and over the lists of
edges in any order. -/
def inDegree (nodes lists : List String) : List (String × Int) :=
  lists.foldl (fun m name => (g.list (.edges,name)).foldl count m) (nodes.foldl (fun m n => put n 0 m) [])

def topologicalSort (nodes lists degrees : List String) : Except String (List String) :=
  let inDegree := g.inDegree nodes lists
  let degree := fun n => (find n inDegree).getD 0
  let queue := degrees.filter (fun n => degree n = 0)
  let result := (Kahn.run (fun queue dst => queue ++ [dst]) (fun node => g.list (.edges,node)) inDegree.length
    ⟨queue,degree,[]⟩).order
  if result.length ≠ g.nodes.rows.length then .error "cycle detected" else .ok result

/-- Orders in which the loops over the maps may go. -/
structure Iterates (nodes lists degrees : List String) : Prop where
  allNodes : nodes.Perm g.nodes.rows
  allLists : lists.Perm (g.edges.rows.map Adjacency.name)
  allDegrees : degrees.Perm (keys (g.inDegree nodes lists))

/-- The sort succeeds with all nodes, each one once, and with the source of every edge
before its target. -/
def Sorts : Prop :=
  ∀ nodes lists degrees, g.Iterates nodes lists degrees →
    ∃ result, g.topologicalSort nodes lists degrees = .ok result ∧ result.Nodup ∧ result.Perm g.nodes.rows ∧
      ∀ x y, g.Edge x y → [x,y].Sublist result

/-- What the sort needs: the edges are between nodes, and each one is known to the node
it leads to. Names of removed nodes may be left in `reverse`. -/
structure Sortable : Prop where
  formed : g.WellFormed
  acyclic : ∀ x, ¬ Relation.TransGen g.Edge x x
  sources : ∀ x y, g.Edge x y → x ∈ g.nodes.rows
  targets : ∀ x y, g.Edge x y → y ∈ g.nodes.rows
  recorded : ∀ x y, (g.list (.edges,x)).count y ≤ (g.list (.reverse,y)).count x

variable {g}

lemma find_zeros (nodes : List String) (m : List (String × Int)) (n : String) :
    find n (nodes.foldl (fun m n => put n 0 m) m) = if n ∈ nodes then some 0 else find n m := by
  induction nodes generalizing m with
  | nil => simp
  | cons x rest ih =>
    rw [foldl_cons,ih,find_put]
    by_cases later : n ∈ rest
    all_goals simp [later]

lemma find_count_foldl (targets : List String) (m : List (String × Int)) (n : String) :
    find n (targets.foldl count m) = if n ∈ targets then some ((find n m).getD 0 + targets.count n) else find n m := by
  induction targets generalizing m with
  | nil => simp
  | cons dst rest ih =>
    rw [foldl_cons,ih,count,find_put]
    by_cases same : n = dst
    · subst same
      rw [if_pos rfl,if_pos mem_cons_self,count_cons_self]
      split_ifs with later
      · rw [Option.getD_some,Option.some_inj]
        omega
      · rw [count_eq_zero.mpr later]
        rfl
    · rw [count_cons_of_ne (Ne.symm same)]
      simp [same]

def targets (g : Graph) (lists : List String) : List String := lists.flatMap (fun name => g.list (.edges,name))

lemma find_inDegree (nodes lists : List String) (n : String) : find n (g.inDegree nodes lists) =
      if n ∈ nodes ∨ n ∈ g.targets lists then some ((g.targets lists).count n : Int) else none := by
  rw [inDegree,← foldl_flatMap,find_count_foldl,find_zeros]
  have start : (if n ∈ nodes then some (0 : Int) else find n []).getD 0 = 0 := by
    split_ifs
    all_goals rfl
  rw [start,Int.zero_add]
  by_cases target : n ∈ g.targets lists
  · rw [if_pos (Or.inr target)]
    exact if_pos target
  · have zero := count_eq_zero.mpr target
    refine (if_neg target).trans ?_
    rw [zero]
    by_cases node : n ∈ nodes
    · rw [if_pos node,if_pos (.inl node)]
      rfl
    · rw [if_neg node,if_neg (not_or.mpr ⟨node,target⟩)]
      rfl

lemma inDegree_sorted (nodes lists : List String) : Sorted (g.inDegree nodes lists) := by
  have folds : ∀ {α : Type} (f : List (String × Int) → α → List (String × Int)),
      (∀ m x,Sorted m → Sorted (f m x)) → ∀ (xs : List α) m,Sorted m → Sorted (xs.foldl f m) := by
    intro α f keeps xs
    induction xs with
    | nil => exact fun m sorted => sorted
    | cons x xs ih => exact fun m sorted => ih (f m x) (keeps m x sorted)
  apply folds _ _ lists
  · exact folds _ (fun m n sorted => sorted.put) nodes [] List.Pairwise.nil
  · intro m name sorted
    exact folds _ (fun m dst sorted => sorted.put) _ m sorted

section Sorting

variable (sortable : g.Sortable) {nodes lists degrees : List String} (iterates : g.Iterates nodes lists degrees)

include iterates

lemma mem_lists_of_edge {x y : String} (edge : g.Edge x y) : x ∈ lists := by
  rw [iterates.allLists.mem_iff]
  obtain ⟨a,found⟩ := Option.ne_none_iff_exists'.mp (key_of_mem edge)
  exact mem_map.mpr ⟨a,g.edges.lookup_mem found,g.edges.lookup_key found⟩

include sortable

lemma keys_inDegree : (keys (g.inDegree nodes lists)).Perm g.nodes.rows := by
  have rows := g.nodes.rows_nodup
  apply (perm_ext_iff_of_nodup (inDegree_sorted nodes lists).keys_nodup rows).mpr
  intro n
  have same : n ∈ nodes ↔ n ∈ g.nodes.rows := iterates.allNodes.mem_iff
  rw [← find_isSome,find_inDegree]
  have inside : n ∈ g.targets lists → n ∈ g.nodes.rows := by
    intro target
    obtain ⟨x,-,edge⟩ := mem_flatMap.mp target
    exact sortable.targets x n edge
  by_cases node : n ∈ g.nodes.rows
  · simp [node,same]
  · have other : n ∉ g.targets lists := fun target => node (inside target)
    simp [node,same,other]

lemma targets_perm : (g.targets lists).Perm ((keys (g.inDegree nodes lists)).flatMap (fun node => g.list (.edges,node))) := by
  have skip : ∀ names : List String,names.flatMap (fun node => g.list (.edges,node)) =
      (names.filter (fun node => g.list (.edges,node) ≠ [])).flatMap (fun node => g.list (.edges,node)) := by
    intro names
    induction names with
    | nil => rfl
    | cons name rest ih =>
      rw [flatMap_cons,filter_cons,ih]
      split_ifs with some_
      · rw [flatMap_cons]
      · have empty : g.list (.edges,name) = [] := by simpa using some_
        rw [empty,nil_append]
  have source : ∀ x,g.list (.edges,x) ≠ [] → x ∈ lists ∧ x ∈ keys (g.inDegree nodes lists) := by
    intro x some_
    obtain ⟨y,edge⟩ := exists_mem_of_ne_nil _ some_
    exact ⟨mem_lists_of_edge iterates edge,
      (keys_inDegree sortable iterates).mem_iff.mpr (sortable.sources x y edge)⟩
  rw [targets,skip lists,skip (Association.keys _)]
  apply List.Perm.flatMap_right
  have distinct := iterates.allLists.nodup_iff.mpr g.edges.distinct
  apply (perm_ext_iff_of_nodup (distinct.filter _) ((inDegree_sorted nodes lists).keys_nodup.filter _)).mpr
  intro x
  simp only [mem_filter,decide_eq_true_eq]
  constructor
  · rintro ⟨-,some_⟩
    exact ⟨(source x some_).2,some_⟩
  · rintro ⟨-,some_⟩
    exact ⟨(source x some_).1,some_⟩

lemma starts : Kahn.Starts (keys (g.inDegree nodes lists)) (fun node => g.list (.edges,node))
    ⟨degrees.filter (fun n => (find n (g.inDegree nodes lists)).getD 0 = 0),
      fun n => (find n (g.inDegree nodes lists)).getD 0,[]⟩ := by
  have nodup := (inDegree_sorted (g := g) nodes lists).keys_nodup
  refine ⟨?_,?_,(iterates.allDegrees.nodup_iff.mpr nodup).filter _,rfl⟩
  · intro n
    dsimp only
    rw [find_inDegree,← (targets_perm sortable iterates).count_eq]
    split_ifs with counted
    · rfl
    · rw [count_eq_zero.mpr (not_or.mp counted).2]
      rfl
  · intro n
    simp only [mem_filter,iterates.allDegrees.mem_iff,decide_eq_true_eq]

lemma sorts_of_iterates :
    ∃ result,g.topologicalSort nodes lists degrees = .ok result ∧ result.Nodup ∧ result.Perm g.nodes.rows ∧
      ∀ x y,g.Edge x y → [x,y].Sublist result := by
  have perm := keys_inDegree sortable iterates
  have nodup := (inDegree_sorted (g := g) nodes lists).keys_nodup
  have starts := starts sortable iterates
  have files : ∀ (queue : List String) dst,(queue ++ [dst]).Perm (dst :: queue) :=
    fun queue dst => perm_append_singleton dst queue
  have closed : ∀ x ∈ keys (g.inDegree nodes lists),∀ y ∈ g.list (.edges,x),y ∈ keys (g.inDegree nodes lists) :=
    fun x _ y edge => perm.mem_iff.mpr (sortable.targets x y edge)
  have acyclic : ∀ x,¬ TransGen (Kahn.Edge (keys (g.inDegree nodes lists)) (fun node => g.list (.edges,node))) x x := by
    intro x cycle
    exact sortable.acyclic x (TransGen.mono (fun _ _ edge => edge.2) x x cycle)
  have size : (keys (g.inDegree nodes lists)).length = (g.inDegree nodes lists).length := length_map _
  have inv := starts.inv.run files nodup closed (g.inDegree nodes lists).length
  have ended := Kahn.run_ready files nodup closed (g.inDegree nodes lists).length starts.inv (by omega)
  have all := (inv.perm_of_acyclic nodup ended acyclic).trans perm
  refine ⟨_,if_neg (not_not.mpr all.length_eq),inv.nodup,all,?_⟩
  intro x y edge
  obtain ⟨before,after,split⟩ := append_of_mem (all.mem_iff.mpr (sortable.targets x y edge))
  have earlier := inv.ordered before y after split x
    (Kahn.mem_sources.mpr ⟨perm.mem_iff.mpr (sortable.sources x y edge),edge⟩)
  rw [split]
  exact (singleton_sublist.mpr earlier).append (singleton_sublist.mpr mem_cons_self)

end Sorting

lemma Sortable.sorts (sortable : g.Sortable) : g.Sorts := fun _ _ _ iterates => sorts_of_iterates sortable iterates

section Steps

variable (spare : Slice → Nat)

lemma addNode_sortable (sortable : g.Sortable) (name : String) : (g.addNode name).Sortable := by
  have edges : (g.addNode name).Edge = g.Edge := by
    unfold Edge
    rw [addNode_list]
  have grows : ∀ x ∈ g.nodes.rows,x ∈ (g.addNode name).nodes.rows := by
    intro x member
    rw [addNode_nodes,Table.mem_insert]
    by_cases same : x = name
    · exact .inl same
    · exact .inr ⟨member,same⟩
  refine ⟨?_,?_,?_,?_,?_⟩
  · rw [WellFormed,addNode_memory,addNode_slot]
    exact sortable.formed
  · rw [edges]
    exact sortable.acyclic
  · intro x y edge
    rw [edges] at edge
    exact grows x (sortable.sources x y edge)
  · intro x y edge
    rw [edges] at edge
    exact grows y (sortable.targets x y edge)
  · rw [addNode_list]
    exact sortable.recorded

lemma connect_sortable (sortable : g.Sortable) {src dst : String} (known : src ∈ g.nodes.rows)
    (known' : dst ∈ g.nodes.rows) (oneWay : g.hasPath dst src = false) : (g.connect spare src dst).Sortable := by
  have formed := sortable.formed
  refine ⟨connect_wellFormed spare formed src dst,connect_acyclic spare formed src dst sortable.acyclic oneWay,?_,?_,?_⟩
  · intro x y edge
    rcases (connect_edge spare formed src dst x y).mp edge with old | ⟨rfl,-⟩
    · exact sortable.sources x y old
    · exact known
  · intro x y edge
    rcases (connect_edge spare formed src dst x y).mp edge with old | ⟨-,rfl⟩
    · exact sortable.targets x y old
    · exact known'
  · intro x y
    have before := sortable.recorded x y
    rw [connect_edges spare formed,connect_reverse spare formed]
    by_cases left : x = src
    · by_cases right : y = dst
      · simpa [left,right] using sortable.recorded src dst
      · simpa [left,right,Ne.symm right] using sortable.recorded src y
    · by_cases right : y = dst
      · simpa [left,right,Ne.symm left] using sortable.recorded x dst
      · simpa [left,right] using before

/-- Edges have been removed, and those that are left are still recorded. -/
structure Kept (g g' : Graph) : Prop where
  formed : g'.WellFormed
  nodes : g'.nodes = g.nodes
  edges : ∀ x y, g'.Edge x y → g.Edge x y
  recorded : ∀ x y, (g'.list (.edges,x)).count y ≤ (g'.list (.reverse,y)).count x

lemma Kept.removeEdge {g g' : Graph} (kept : Kept g g') (src dst : String) : Kept g (g'.removeEdge spare src dst) := by
  have formed := kept.formed
  refine ⟨removeEdge_wellFormed spare formed src dst,?_,?_,?_⟩
  · rw [Graph.removeEdge,cut_nodes,cut_nodes]
    exact kept.nodes
  · intro x y edge
    rw [Edge,removeEdge_edges spare formed] at edge
    split_ifs at edge
    · exact kept.edges x y (mem_of_mem_erase edge)
    · exact kept.edges x y edge
  · intro x y
    have before := kept.recorded x y
    rw [removeEdge_edges spare formed,removeEdge_reverse spare formed]
    by_cases left : x = src
    · by_cases right : y = dst
      · rw [if_pos left,if_pos right,← left,← right,count_erase_self,count_erase_self]
        omega
      · rw [if_pos left,if_neg right,count_erase_of_ne right]
        exact before
    · by_cases right : y = dst
      · rw [if_neg left,if_pos right,count_erase_of_ne left]
        exact before
      · rw [if_neg left,if_neg right]
        exact before

lemma Kept.sortable {g g' : Graph} (kept : Kept g g') (sortable : g.Sortable) : g'.Sortable := by
  refine ⟨kept.formed,?_,?_,?_,kept.recorded⟩
  · intro x cycle
    exact sortable.acyclic x (TransGen.mono kept.edges x x cycle)
  · intro x y edge
    rw [kept.nodes]
    exact sortable.sources x y (kept.edges x y edge)
  · intro x y edge
    rw [kept.nodes]
    exact sortable.targets x y (kept.edges x y edge)

lemma removeNode_sortable (sortable : g.Sortable) {name : String} (clears : Sweep.Clears (g.list (.reverse,name))) :
    (g.removeNode spare name).Sortable := by
  let start : Graph := { g with nodes := g.nodes.erase name }
  have kept : Kept start start := ⟨sortable.formed,rfl,fun _ _ edge => edge,sortable.recorded⟩
  let incoming := start.slot (.reverse,name)
  let middle := rangeOver incoming (fun src g => g.removeEdge spare src name) incoming.len 0 start
  have first : Kept start middle := rangeOver_preserves (fun g' src kept => kept.removeEdge spare src name) _ _ kept
  have emptied : middle.list (.reverse,name) = [] := by
    have length : incoming.len = (g.list (.reverse,name)).length := (Separated.valid sortable.formed _).length.symm
    have swept : middle.list (.reverse,name) = (Sweep.run incoming.len 0 (g.list (.reverse,name),[])).1 :=
      rangeOver_sweeps (removeEdge_sweeps_reverse spare name) _ _ kept.formed (ranged_start kept.formed _)
    rw [swept,length]
    exact (Sweep.run_clears _).mpr clears
  have unreached : ∀ x,¬ middle.Edge x name := by
    intro x edge
    have some_ := count_pos_iff.mpr edge
    have none_ := first.recorded x name
    rw [emptied,count_nil] at none_
    omega
  let outgoing := middle.slot (.edges,name)
  let last := rangeOver outgoing (fun dst g => g.removeEdge spare name dst) outgoing.len 0 middle
  have second : Kept middle last := rangeOver_preserves (fun g' dst kept => kept.removeEdge spare name dst) _ _
    ⟨first.formed,rfl,fun _ _ edge => edge,first.recorded⟩
  have nodes : (last.forget name).nodes = g.nodes.erase name := second.nodes.trans first.nodes
  have edges : ∀ x y,(last.forget name).Edge x y → x ≠ name ∧ y ≠ name ∧ g.Edge x y := by
    intro x y edge
    have left : x ≠ name := by
      rintro rfl
      rw [Edge,forget_list,if_pos rfl] at edge
      cases edge
    have kept := second.edges x y ((forget_shrunk last name).lists _ _ edge)
    refine ⟨left,?_,first.edges x y kept⟩
    rintro rfl
    exact unreached x kept
  have result : g.removeNode spare name = last.forget name := rfl
  rw [result]
  refine ⟨forget_wellFormed second.formed name,?_,?_,?_,?_⟩
  · intro x cycle
    exact sortable.acyclic x (TransGen.mono (fun a b edge => (edges a b edge).2.2) x x cycle)
  · intro x y edge
    obtain ⟨left,-,old⟩ := edges x y edge
    rw [nodes,Table.mem_erase]
    exact ⟨sortable.sources x y old,left⟩
  · intro x y edge
    obtain ⟨-,right,old⟩ := edges x y edge
    rw [nodes,Table.mem_erase]
    exact ⟨sortable.targets x y old,right⟩
  · intro x y
    rw [forget_list,forget_list]
    dsimp only
    split_ifs with left right right
    · exact le_rfl
    · rw [count_nil]
      exact Nat.zero_le _
    · have none_ : y ∉ last.list (.edges,x) := by
        rintro edge
        rw [right] at edge
        exact unreached x (second.edges x name edge)
      rw [count_eq_zero.mpr none_]
      exact Nat.zero_le _
    · exact second.recorded x y

end Steps

end Graph

open Tempest.Dag.Graph

/-- A node that is removed has a list of sources of which every element at an odd place
equals the last. -/
def ClearsSources (g : Graph) : Op → Prop
  | .removeNode name => Sweep.Clears (g.list (.reverse,name))
  | .addNode _ | .addEdge .. | .removeEdge .. => True

instance (g : Graph) : ∀ op, Decidable (ClearsSources g op)
  | .removeNode name => inferInstanceAs (Decidable (Sweep.Clears (g.list (.reverse,name))))
  | .addNode _ | .addEdge .. | .removeEdge .. => .isTrue trivial

lemma step_sortable (spare : Slice → Nat) {g : Graph} (sortable : g.Sortable) (op : Op) (clears : ClearsSources g op) :
    (step spare g op).Sortable := by
  cases op with
  | addNode name => exact addNode_sortable sortable name
  | removeNode name => exact removeNode_sortable spare sortable clears
  | addEdge src dst =>
    rw [step]
    cases result : g.addEdge spare src dst with
    | error e => exact sortable
    | ok g' =>
      obtain ⟨known,known',oneWay,rfl⟩ := addEdge_ok spare result
      exact connect_sortable spare sortable known known' oneWay
  | removeEdge src dst =>
    have kept : Kept g g := ⟨sortable.formed,rfl,fun _ _ edge => edge,sortable.recorded⟩
    exact (kept.removeEdge spare src dst).sortable sortable

lemma new_sortable : ({} : Graph).Sortable := by
  have named := new_coherent.named .edges
  have source : ∀ x y,({} : Graph).Edge x y → x ∈ ({} : Graph).nodes.rows :=
    fun x y edge => named x ((mentions_iff _ _ _).mpr (.inl (key_of_mem edge)))
  exact ⟨new_wellFormed,new_coherent.acyclic,source,fun x y edge => absurd (source x y edge) (by simp [Table.empty]),
    fun x y => (new_coherent.mirror x y).le⟩

/-- In every run in which each `RemoveNode` clears the list of the node's sources, the sort
succeeds in every state, however the maps are iterated. -/
theorem sorts_throughout (spare : Slice → Nat) (ops : List Op) (clears : Along (step spare) ClearsSources {} ops) :
    Throughout (step spare) Sorts {} ops := by
  have kept : Throughout (step spare) Sortable {} ops :=
    Along.throughout (fun _ op sortable clears => step_sortable spare sortable op clears) new_sortable clears
  exact kept.mono (fun _ sortable => sortable.sorts)

/-- Two edges into the removed node are both removed. -/
theorem sorts_two_sources :
    Throughout (step (fun _ => 0)) Sorts {}
      [.addNode "a",.addNode "b",.addNode "t",.addEdge "a" "t",.addEdge "b" "t",.removeNode "t"] :=
  sorts_throughout _ _ (by decide)

/-- With three edges into the removed node one is left, and the sort finds a name too many. -/
theorem three_sources_unsorted :
    ¬ Throughout (step (fun _ => 0)) Sorts {}
      [.addNode "a",.addNode "b",.addNode "c",.addNode "t",.addEdge "a" "t",.addEdge "b" "t",.addEdge "c" "t",
        .removeNode "t"] := by
  intro holds
  obtain ⟨result,sorted,-⟩ := holds _ prefix_rfl ["a","b","c"] ["a","b","c"] ["a","b","c","t"]
    ⟨by decide,by decide,by decide⟩
  have failed : (.ok result : Except String (List String)) = .error "cycle detected" := sorted.symm.trans (by decide)
  cases failed

end Tempest.Dag
