import Tempest.Lib.Filing
import Tempest.Lib.Search
import Tempest.Lib.Slices
import Tempest.Lib.Sweep

/-! The graph of `internal/dag`. The two maps of adjacency lists have slices, and the
loops of `RemoveNode` range over a slice from which their bodies remove: the length
is that of the start of the loop, the elements are read from the array one by one. -/
open List
namespace Tempest.Dag
open Filing Slices Function

structure Adjacency where
  name : String
  slice : Slice

inductive Side
  | edges | reverse
  deriving DecidableEq

structure Graph where
  memory : Memory String := []
  nodes : Table (id : String → String) := .empty
  edges : Table Adjacency.name := .empty
  reverse : Table Adjacency.name := .empty

namespace Graph

def lists (g : Graph) : Side → Table Adjacency.name
  | .edges => g.edges
  | .reverse => g.reverse

def slot (g : Graph) (key : Side × String) : Slice := (((g.lists key.1).lookup key.2).map Adjacency.slice).getD .nil

def list (g : Graph) (key : Side × String) : List String := contents g.memory (g.slot key)

def assign (g : Graph) (key : Side × String) (result : Memory String × Slice) : Graph :=
  match key.1 with
  | .edges => { g with memory := result.1, edges := g.edges.insert ⟨key.2,result.2⟩ }
  | .reverse => { g with memory := result.1, reverse := g.reverse.insert ⟨key.2,result.2⟩ }

def hasNode (g : Graph) (name : String) : Bool := (g.nodes.lookup name).isSome

def touch (g : Graph) (key : Side × String) : Graph :=
  if g.slot key = .nil then g.assign key (g.memory,.nil) else g

def addNode (g : Graph) (name : String) : Graph :=
  ({ g with nodes := g.nodes.insert name }.touch (.edges,name)).touch (.reverse,name)

def hasPath (g : Graph) (src dst : String) : Bool :=
  Search.search (fun x => g.list (.edges,x)) dst
    (2 + (g.edges.rows.map (fun a => (contents g.memory a.slice).length)).sum) [src] [] = some true

variable (spare : Slice → Nat)

def cut (g : Graph) (key : Side × String) (name : String) : Graph :=
  match (g.list key).idxOf? name with
  | none => g
  | some i => g.assign key (removeAt (spare (g.slot key)) g.memory (g.slot key) i)

def removeEdge (g : Graph) (src dst : String) : Graph := (g.cut spare (.edges,src) dst).cut spare (.reverse,dst) src

def push (g : Graph) (key : Side × String) (name : String) : Graph :=
  g.assign key (append (spare (g.slot key)) g.memory (g.slot key) [name])

def addEdge (g : Graph) (src dst : String) : Except String Graph :=
  if !g.hasNode src || !g.hasNode dst then .error "node not found"
  else if g.hasPath dst src then .error "would create cycle"
  else .ok ((g.push spare (.edges,src) dst).push spare (.reverse,dst) src)

end Graph

/-- The iterations of `for _, x := range h` that are left. Since `h` is a slice of the
array, there always is an element. -/
def rangeOver (h : Slice) (body : String → Graph → Graph) : Nat → Nat → Graph → Graph
  | 0, _, g => g
  | count + 1, k, g =>
    match (contents g.memory h)[k]? with
    | none => rangeOver h body count (k + 1) g
    | some x => rangeOver h body count (k + 1) (body x g)

def Graph.removeNode (spare : Slice → Nat) (g : Graph) (name : String) : Graph :=
  let g := { g with nodes := g.nodes.erase name }
  let incoming := g.slot (.reverse,name)
  let g := rangeOver incoming (fun src g => g.removeEdge spare src name) incoming.len 0 g
  let outgoing := g.slot (.edges,name)
  let g := rangeOver outgoing (fun dst g => g.removeEdge spare name dst) outgoing.len 0 g
  { g with edges := g.edges.erase name, reverse := g.reverse.erase name }

inductive Op
  | addNode (name : String)
  | removeNode (name : String)
  | addEdge (src dst : String)
  | removeEdge (src dst : String)

def step (spare : Slice → Nat) (g : Graph) : Op → Graph
  | .addNode name => g.addNode name
  | .removeNode name => g.removeNode spare name
  | .addEdge src dst =>
    match g.addEdge spare src dst with
    | .ok next => next
    | .error _ => g
  | .removeEdge src dst => g.removeEdge spare src dst

variable {h : Slice} {stale : List String}

namespace Graph

def WellFormed (g : Graph) : Prop := Separated g.memory g.slot

@[simp] lemma assign_memory (g : Graph) (key : Side × String) (result : Memory String × Slice) :
    (g.assign key result).memory = result.1 := by
  obtain ⟨side,name⟩ := key
  cases side <;> rfl

@[simp] lemma assign_nodes (g : Graph) (key : Side × String) (result : Memory String × Slice) :
    (g.assign key result).nodes = g.nodes := by
  obtain ⟨side,name⟩ := key
  cases side <;> rfl

lemma assign_lookup (g : Graph) (key : Side × String) (result : Memory String × Slice) (other : Side × String) :
    ((g.assign key result).lists other.1).lookup other.2 =
      if other = key then some ⟨key.2,result.2⟩ else (g.lists other.1).lookup other.2 := by
  obtain ⟨side,name⟩ := key
  obtain ⟨side',name'⟩ := other
  cases side <;> cases side' <;> simp [assign,lists,Table.lookup_insert]

lemma assign_slot (g : Graph) (key : Side × String) (result : Memory String × Slice) :
    (g.assign key result).slot = update g.slot key result.2 := by
  funext other
  rw [update_apply,slot,assign_lookup]
  split_ifs
  · rfl
  · rfl

/-- A range loop over an entry of the maps: its header still has the array of the entry,
with the elements of the entry in front and some that are stale behind. -/
structure Ranged (g : Graph) (key : Side × String) (h : Slice) (stale : List String) : Prop where
  ptr : h.ptr = (g.slot key).ptr
  short : h.len ≤ (g.slot key).cap
  reads : contents g.memory h = g.list key ++ stale

section Cut

variable (spare : Slice → Nat) {g : Graph} (formed : g.WellFormed) {key : Side × String} {name : String}

lemma cut_absent (absent : name ∉ g.list key) : g.cut spare key name = g := by
  unfold cut
  rw [idxOf?_eq_none_iff.mpr absent]

include formed

lemma ranged_start (key : Side × String) : Ranged g key (g.slot key) [] :=
  ⟨rfl,(Separated.valid formed key).fits,(append_nil _).symm⟩

lemma cut_present (present : name ∈ g.list key) :
    ∃ i,i < (g.slot key).len ∧ (g.list key).eraseIdx i = (g.list key).erase name ∧
      g.cut spare key name = g.assign key (removeAt (spare (g.slot key)) g.memory (g.slot key) i) := by
  unfold cut
  cases found : (g.list key).idxOf? name with
  | none => exact absurd present (idxOf?_eq_none_iff.mp found)
  | some i =>
    obtain ⟨inside,_⟩ := idxOf?_eq_some_iff.mp found
    refine ⟨i,?_,?_,rfl⟩
    · rw [← (Separated.valid formed key).length]
      exact inside
    · rw [erase_eq_eraseIdx,found]

lemma cut_wellFormed (key : Side × String) (name : String) : (g.cut spare key name).WellFormed := by
  by_cases present : name ∈ g.list key
  · obtain ⟨i,inside,_,result⟩ := cut_present spare formed present
    rw [result,WellFormed,assign_memory,assign_slot]
    exact Separated.removeAt_separated formed key _ inside
  · rw [cut_absent spare present]
    exact formed

lemma cut_list (key : Side × String) (name : String) (other : Side × String) :
    (g.cut spare key name).list other = if other = key then (g.list key).erase name else g.list other := by
  by_cases present : name ∈ g.list key
  · obtain ⟨i,inside,erased,result⟩ := cut_present spare formed present
    rw [result,list,assign_memory,assign_slot]
    split_ifs with same
    · rw [same,update_self,← erased]
      exact Separated.removeAt_contents formed key _ inside
    · rw [update_of_ne same]
      exact Separated.removeAt_other formed key _ inside same rfl (Separated.valid formed other).fits
  · rw [cut_absent spare present]
    split_ifs with same
    · rw [same,erase_of_not_mem present]
    · rfl

lemma cut_ranged_other (name : String) {other : Side × String} (apart : other ≠ key)
    (ranged : Ranged g other h stale) : Ranged (g.cut spare key name) other h stale := by
  have lists := cut_list spare formed key name other
  rw [if_neg apart] at lists
  by_cases present : name ∈ g.list key
  · obtain ⟨i,inside,_,result⟩ := cut_present spare formed present
    have slots : (g.cut spare key name).slot other = g.slot other := by
      rw [result,assign_slot,update_of_ne apart]
    refine ⟨by rw [slots]; exact ranged.ptr,by rw [slots]; exact ranged.short,?_⟩
    rw [lists,← ranged.reads,result,assign_memory]
    exact Separated.removeAt_other formed key _ inside apart ranged.ptr ranged.short
  · rw [cut_absent spare present]
    exact ranged

lemma cut_ranged (present : name ∈ g.list key) (ranged : Ranged g key h stale) :
    Ranged (g.cut spare key name) key h ((g.list key).drop ((g.list key).length - 1) ++ stale) := by
  have lists := cut_list spare formed key name key
  rw [if_pos rfl] at lists
  obtain ⟨i,inside,erased,result⟩ := cut_present spare formed present
  have shared := Separated.removeAt_shared formed key (spare (g.slot key)) inside ranged.ptr ranged.reads
  have slots : (g.cut spare key name).slot key = { g.slot key with len := (g.slot key).len - 1 } := by
    rw [result,assign_slot,update_self,Separated.removeAt_eq formed key _ inside]
  refine ⟨by rw [slots]; exact ranged.ptr,by rw [slots]; exact ranged.short,?_⟩
  rw [lists,← erased]
  nth_rewrite 1 [result]
  rw [assign_memory,shared,← (Separated.valid formed key).length]
  rfl

end Cut

section Edges

variable (spare : Slice → Nat) {g : Graph} (formed : g.WellFormed)

include formed

lemma push_wellFormed (key : Side × String) (name : String) : (g.push spare key name).WellFormed := by
  rw [WellFormed,push,assign_memory,assign_slot]
  exact Separated.append_separated formed key _ _

lemma push_list (key : Side × String) (name : String) (other : Side × String) :
    (g.push spare key name).list other = if other = key then g.list key ++ [name] else g.list other := by
  rw [list,push,assign_memory,assign_slot]
  split_ifs with same
  · rw [same,update_self]
    exact Separated.append_contents formed key _ _
  · rw [update_of_ne same]
    exact Separated.append_other formed key _ _ same

lemma removeEdge_wellFormed (src dst : String) : (g.removeEdge spare src dst).WellFormed :=
  cut_wellFormed spare (cut_wellFormed spare formed _ _) _ _

lemma removeEdge_edges (src dst x : String) : (g.removeEdge spare src dst).list (.edges,x) =
      if x = src then (g.list (.edges,x)).erase dst else g.list (.edges,x) := by
  rw [removeEdge,cut_list spare (cut_wellFormed spare formed _ _),if_neg (by simp),cut_list spare formed]
  by_cases same : x = src
  all_goals simp [same]

lemma removeEdge_reverse (src dst y : String) : (g.removeEdge spare src dst).list (.reverse,y) =
      if y = dst then (g.list (.reverse,y)).erase src else g.list (.reverse,y) := by
  rw [removeEdge,cut_list spare (cut_wellFormed spare formed _ _),cut_list spare formed,cut_list spare formed]
  by_cases same : y = dst
  all_goals simp [same]

end Edges

lemma slot_row {g : Graph} {side : Side} {a : Adjacency} (stored : a ∈ (g.lists side).rows) :
    g.slot (side,a.name) = a.slice := by
  rw [slot,(g.lists side).lookup_of_mem stored]
  rfl

lemma hasPath_iff (g : Graph) (src dst : String) :
    g.hasPath src dst = true ↔ Relation.ReflTransGen (fun x y => y ∈ g.list (.edges,x)) src dst := by
  rw [hasPath,decide_eq_true_iff]
  apply Search.search_iff dst g.edges.distinct
  · intro x unlisted
    have absent : g.edges.lookup x = none := by
      rw [Table.lookup_eq_none]
      intro a stored same
      exact unlisted (mem_map.mpr ⟨a,stored,same⟩)
    rw [list]
    change contents g.memory (((g.edges.lookup x).map Adjacency.slice).getD .nil) = []
    rw [absent]
    rfl
  · have same : (g.edges.rows.map Adjacency.name).map (fun x => (g.list (.edges,x)).length) =
        g.edges.rows.map (fun a => (contents g.memory a.slice).length) := by
      rw [map_map]
      apply map_congr_left
      intro a stored
      have slice : g.slot (.edges,a.name) = a.slice := slot_row stored
      simp only [comp_apply,list,slice]
    rw [same]
    omega

end Graph

def Sweeps (own : Side × String) (body : String → Graph → Graph) : Prop :=
  ∀ g x h stale, g.WellFormed → g.Ranged own h stale →
    (body x g).WellFormed ∧
    (x ∈ g.list own → (body x g).list own = (g.list own).erase x ∧
      (body x g).Ranged own h ((g.list own).drop ((g.list own).length - 1) ++ stale)) ∧
    (x ∉ g.list own → (body x g).list own = g.list own ∧ (body x g).Ranged own h stale)

variable {body : String → Graph → Graph}

lemma rangeOver_preserves {P : Graph → Prop}
    (keeps : ∀ g x,P g → P (body x g)) (count k : Nat) {g : Graph} (holds : P g) : P (rangeOver h body count k g) := by
  induction count generalizing k g with
  | zero => exact holds
  | succ count ih =>
    unfold rangeOver
    split
    · exact ih (k + 1) holds
    · exact ih (k + 1) (keeps g _ holds)

lemma rangeOver_sweeps {own : Side × String} (sweeps : Sweeps own body)
    (count k : Nat) {g : Graph} (formed : g.WellFormed) (ranged : g.Ranged own h stale) :
    (rangeOver h body count k g).list own = (Sweep.run count k (g.list own,stale)).1 := by
  induction count generalizing k g stale with
  | zero => rfl
  | succ count ih =>
    unfold rangeOver Sweep.run Sweep.step
    rw [ranged.reads]
    cases read : (g.list own ++ stale)[k]? with
    | none => exact ih (k + 1) formed ranged
    | some x =>
      obtain ⟨formed',removes,keeps⟩ := sweeps g x h stale formed ranged
      dsimp only
      split_ifs with present
      · obtain ⟨erased,ranged'⟩ := removes present
        rw [ih (k + 1) formed' ranged',erased]
      · obtain ⟨same,ranged'⟩ := keeps present
        rw [ih (k + 1) formed' ranged',same]

lemma removeEdge_sweeps_reverse (spare : Slice → Nat) (name : String) :
    Sweeps (.reverse,name) (fun src g => g.removeEdge spare src name) := by
  intro g src h stale formed ranged
  have apart : ((.reverse,name) : Side × String) ≠ (.edges,src) := by simp
  have between := Graph.cut_wellFormed spare formed (.edges,src) name
  have ranged' := Graph.cut_ranged_other spare formed name apart ranged
  have lists := Graph.cut_list spare formed (.edges,src) name (.reverse,name)
  rw [if_neg apart] at lists
  refine ⟨Graph.removeEdge_wellFormed spare formed src name,?_,?_⟩
  · intro present
    refine ⟨by rw [Graph.removeEdge_reverse spare formed,if_pos rfl],?_⟩
    rw [← lists] at present ⊢
    exact Graph.cut_ranged spare between present ranged'
  · intro absent
    refine ⟨by rw [Graph.removeEdge_reverse spare formed,if_pos rfl,erase_of_not_mem absent],?_⟩
    rw [← lists] at absent
    have same : g.removeEdge spare src name = g.cut spare (.edges,src) name := Graph.cut_absent spare absent
    dsimp only
    rw [same]
    exact ranged'

lemma removeEdge_sweeps_edges (spare : Slice → Nat) (name : String) :
    Sweeps (.edges,name) (fun dst g => g.removeEdge spare name dst) := by
  intro g dst h stale formed ranged
  have apart : ((.edges,name) : Side × String) ≠ (.reverse,dst) := by simp
  have between := Graph.cut_wellFormed spare formed (.edges,name) dst
  refine ⟨Graph.removeEdge_wellFormed spare formed name dst,?_,?_⟩
  · intro present
    refine ⟨by rw [Graph.removeEdge_edges spare formed,if_pos rfl],?_⟩
    exact Graph.cut_ranged_other spare between name apart (Graph.cut_ranged spare formed present ranged)
  · intro absent
    refine ⟨by rw [Graph.removeEdge_edges spare formed,if_pos rfl,erase_of_not_mem absent],?_⟩
    apply Graph.cut_ranged_other spare between name apart
    rw [Graph.cut_absent spare absent]
    exact ranged

end Tempest.Dag
