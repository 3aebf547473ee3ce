import Tempest.Dag
import Tempest.Lib.Interaction

/-! The invariant of the graph and what `RemoveNode` does to it. The loops of
`RemoveNode` leave something over unless the lists of the node are of a special
form, and what is left over still names the node when it is gone. -/
open List
namespace Tempest.Dag
open Filing Slices Interaction Relation

namespace Graph

def Edge (g : Graph) (x y : String) : Prop := y ∈ g.list (.edges,x)

def Mentions (g : Graph) (side : Side) (name : String) : Prop :=
  ∃ a ∈ (g.lists side).rows, a.name = name ∨ name ∈ contents g.memory a.slice

structure Coherent (g : Graph) : Prop where
  acyclic : ∀ x, ¬ Relation.TransGen g.Edge x x
  mirror : ∀ x y, (g.list (.edges,x)).count y = (g.list (.reverse,y)).count x
  named : ∀ side name, g.Mentions side name → name ∈ g.nodes.rows

/-- The graph has lost edges only. -/
structure Shrunk (g g' : Graph) : Prop where
  keys : ∀ key : Side × String, (g'.lists key.1).lookup key.2 ≠ none → (g.lists key.1).lookup key.2 ≠ none
  lists : ∀ key, ∀ x ∈ g'.list key, x ∈ g.list key

lemma key_of_mem {g : Graph} {key : Side × String} {x : String} (member : x ∈ g.list key) :
    (g.lists key.1).lookup key.2 ≠ none := by
  intro missing
  rw [list,slot,missing] at member
  cases member

lemma mentions_iff (g : Graph) (side : Side) (name : String) :
    g.Mentions side name ↔ (g.lists side).lookup name ≠ none ∨ ∃ x,name ∈ g.list (side,x) := by
  constructor
  · rintro ⟨a,stored,rfl | member⟩
    · rw [(g.lists side).lookup_of_mem stored]
      simp
    · right
      refine ⟨a.name,?_⟩
      rw [list,slot_row stored]
      exact member
  · rintro (known | ⟨x,member⟩)
    · obtain ⟨a,found⟩ := Option.ne_none_iff_exists'.mp known
      exact ⟨a,(g.lists side).lookup_mem found,.inl ((g.lists side).lookup_key found)⟩
    · obtain ⟨a,found⟩ := Option.ne_none_iff_exists'.mp (key_of_mem member)
      refine ⟨a,(g.lists side).lookup_mem found,.inr ?_⟩
      rw [list,slot,found] at member
      exact member

variable {g' : Graph} {side : Side} {name : String}

namespace Shrunk

lemma refl (g : Graph) : Shrunk g g := ⟨fun _ known => known,fun _ _ member => member⟩

lemma trans {g g'' : Graph} (first : Shrunk g g') (second : Shrunk g' g'') : Shrunk g g'' :=
  ⟨fun key known => first.keys key (second.keys key known),fun key x member => first.lists key x (second.lists key x member)⟩

lemma mentions {g : Graph} (shrunk : Shrunk g g') (mentioned : g'.Mentions side name) :
    g.Mentions side name := by
  rcases (mentions_iff g' side name).mp mentioned with known | ⟨x,member⟩
  · exact (mentions_iff g side name).mpr (.inl (shrunk.keys (side,name) known))
  · exact (mentions_iff g side name).mpr (.inr ⟨x,shrunk.lists _ _ member⟩)

lemma acyclic {g : Graph} (shrunk : Shrunk g g') (acyclic : ∀ x,¬ TransGen g.Edge x x) (x : String) :
    ¬ TransGen g'.Edge x x := by
  intro cycle
  exact acyclic x (TransGen.mono (fun a b edge => shrunk.lists (.edges,a) b edge) x x cycle)

end Shrunk

lemma cut_shrunk (spare : Slice → Nat) {g : Graph} (formed : g.WellFormed) (key : Side × String) (name : String) :
    Shrunk g (g.cut spare key name) := by
  constructor
  · intro other known
    by_cases present : name ∈ g.list key
    · obtain ⟨i,_,_,result⟩ := cut_present spare formed present
      rw [result,assign_lookup] at known
      split_ifs at known with same
      · rw [same]
        exact key_of_mem present
      · exact known
    · rw [cut_absent spare present] at known
      exact known
  · intro other x member
    rw [cut_list spare formed] at member
    split_ifs at member with same
    · rw [same]
      exact mem_of_mem_erase member
    · exact member

lemma cut_nodes (spare : Slice → Nat) (g : Graph) (key : Side × String) (name : String) :
    (g.cut spare key name).nodes = g.nodes := by
  unfold cut
  split
  · rfl
  · exact assign_nodes _ _ _

/-- Edges have been removed, each from both maps. -/
structure Cleaned (g g' : Graph) : Prop where
  formed : g'.WellFormed
  nodes : g'.nodes = g.nodes
  shrunk : Shrunk g g'
  mirror : ∀ x y, (g'.list (.edges,x)).count y = (g'.list (.reverse,y)).count x

lemma Cleaned.removeEdge (spare : Slice → Nat) {g : Graph} (cleaned : Cleaned g g') (src dst : String) :
    Cleaned g (g'.removeEdge spare src dst) := by
  have formed := cleaned.formed
  refine ⟨removeEdge_wellFormed spare formed src dst,?_,?_,?_⟩
  · rw [Graph.removeEdge,cut_nodes,cut_nodes]
    exact cleaned.nodes
  · have first := cut_shrunk spare formed (.edges,src) dst
    have second := cut_shrunk spare (cut_wellFormed spare formed (.edges,src) dst) (.reverse,dst) src
    exact cleaned.shrunk.trans (first.trans second)
  · intro x y
    rw [removeEdge_edges spare formed,removeEdge_reverse spare formed]
    have before := cleaned.mirror x y
    by_cases left : x = src
    · by_cases right : y = dst
      · rw [if_pos left,if_pos right,left,right,count_erase_self,count_erase_self,← left,← right,before]
      · rw [if_pos left,if_neg right,count_erase_of_ne right,before]
    · by_cases right : y = dst
      · rw [if_neg left,if_pos right,count_erase_of_ne left,before]
      · rw [if_neg left,if_neg right,before]

lemma Coherent.cleaned {g : Graph} (coherent : Coherent g) (cleaned : Cleaned g g') : Coherent g' := by
  refine ⟨cleaned.shrunk.acyclic coherent.acyclic,cleaned.mirror,?_⟩
  intro side name mentioned
  rw [cleaned.nodes]
  exact coherent.named side name (cleaned.shrunk.mentions mentioned)

def opposite : Side → Side
  | .edges => .reverse
  | .reverse => .edges

lemma mem_opposite {g : Graph} (mirror : ∀ x y,(g.list (.edges,x)).count y = (g.list (.reverse,y)).count x)
    (side : Side) (x y : String) : y ∈ g.list (side,x) ↔ x ∈ g.list (opposite side,y) := by
  cases side with
  | edges | reverse => rw [opposite,← count_pos_iff,← count_pos_iff,mirror]

lemma Coherent.irreflexive {g : Graph} (coherent : Coherent g) (side : Side) (x : String) : x ∉ g.list (side,x) := by
  have loop := fun member => coherent.acyclic x (TransGen.single member)
  cases side with
  | edges => exact loop
  | reverse => exact fun member => loop ((mem_opposite coherent.mirror .reverse x x).mp member)

def forget (g : Graph) (name : String) : Graph :=
  { g with edges := g.edges.erase name, reverse := g.reverse.erase name }

lemma forget_lookup (g : Graph) (name : String) (key : Side × String) :
    ((g.forget name).lists key.1).lookup key.2 = if key.2 = name then none else (g.lists key.1).lookup key.2 := by
  obtain ⟨side,other⟩ := key
  cases side <;> exact Table.lookup_erase _ _ _

lemma forget_slot (g : Graph) (name : String) (key : Side × String) :
    (g.forget name).slot key = if key.2 = name then .nil else g.slot key := by
  rw [slot,forget_lookup]
  split_ifs
  · rfl
  · rfl

lemma forget_list (g : Graph) (name : String) (key : Side × String) :
    (g.forget name).list key = if key.2 = name then [] else g.list key := by
  rw [list,forget_slot]
  split_ifs
  · rfl
  · rfl

lemma forget_shrunk (g : Graph) (name : String) : Shrunk g (g.forget name) := by
  constructor
  · intro key known
    rw [forget_lookup] at known
    split_ifs at known
    · exact absurd rfl known
    · exact known
  · intro key x member
    rw [forget_list] at member
    split_ifs at member
    · cases member
    · exact member

lemma forget_wellFormed {g : Graph} (formed : g.WellFormed) (name : String) : (g.forget name).WellFormed := by
  have slots : (g.forget name).slot =
      Function.update (Function.update g.slot (.edges,name) .nil) (.reverse,name) .nil := by
    funext key
    obtain ⟨side,other⟩ := key
    rw [forget_slot]
    cases side <;> by_cases same : other = name <;> simp [same]
  rw [WellFormed,slots]
  exact Separated.drop (Separated.drop formed _) _

/-- What `RemoveNode` has done when it deletes the entries: the edges of the node are
gone exactly if both loops clear the list that they range over. -/
structure Emptied (g g' : Graph) (name : String) : Prop where
  cleaned : Cleaned { g with nodes := g.nodes.erase name } g'
  incoming : g'.list (.reverse,name) = [] ↔ Sweep.Clears (g.list (.reverse,name))
  outgoing : g'.list (.edges,name) = [] ↔ Sweep.Clears (g.list (.edges,name))

lemma removeNode_empties (spare : Slice → Nat) {g : Graph} (formed : g.WellFormed) (coherent : Coherent g) (name : String) :
    ∃ g',Emptied g g' name ∧ g.removeNode spare name = g'.forget name := by
  let start : Graph := { g with nodes := g.nodes.erase name }
  have cleaned : Cleaned start start := ⟨formed,rfl,Shrunk.refl start,coherent.mirror⟩
  -- The first loop does not touch the outgoing edges of the node, because there are no loops.
  let incoming := start.slot (.reverse,name)
  let middle := rangeOver incoming (fun src g => g.removeEdge spare src name) incoming.len 0 start
  have first : Cleaned start middle ∧ middle.list (.edges,name) = g.list (.edges,name) := by
    apply rangeOver_preserves (P := fun g' => Cleaned start g' ∧ g'.list (.edges,name) = g.list (.edges,name))
    · rintro g' src ⟨cleaned',same⟩
      refine ⟨cleaned'.removeEdge spare src name,?_⟩
      rw [removeEdge_edges spare cleaned'.formed,same]
      split_ifs
      · exact erase_of_not_mem (coherent.irreflexive .edges name)
      · rfl
    · exact ⟨cleaned,rfl⟩
  have swept : middle.list (.reverse,name) = (Sweep.run incoming.len 0 (g.list (.reverse,name),[])).1 :=
    rangeOver_sweeps (removeEdge_sweeps_reverse spare name) _ _ cleaned.formed (ranged_start cleaned.formed _)
  have length : incoming.len = (g.list (.reverse,name)).length := (Separated.valid formed _).length.symm
  -- Nor does the second one touch the incoming ones.
  let outgoing := middle.slot (.edges,name)
  let last := rangeOver outgoing (fun dst g => g.removeEdge spare name dst) outgoing.len 0 middle
  have second : Cleaned start last ∧ last.list (.reverse,name) = middle.list (.reverse,name) := by
    apply rangeOver_preserves (P := fun g' => Cleaned start g' ∧ g'.list (.reverse,name) = middle.list (.reverse,name))
    · rintro g' dst ⟨cleaned',same⟩
      refine ⟨cleaned'.removeEdge spare name dst,?_⟩
      rw [removeEdge_reverse spare cleaned'.formed]
      split_ifs
      · rw [erase_of_not_mem (fun member => coherent.irreflexive .reverse name (cleaned'.shrunk.lists _ _ member)),same]
      · exact same
    · exact ⟨first.1,rfl⟩
  have swept' : last.list (.edges,name) = (Sweep.run outgoing.len 0 (middle.list (.edges,name),[])).1 :=
    rangeOver_sweeps (removeEdge_sweeps_edges spare name) _ _ first.1.formed (ranged_start first.1.formed _)
  have length' : outgoing.len = (middle.list (.edges,name)).length := (Separated.valid first.1.formed _).length.symm
  refine ⟨last,⟨second.1,?_,?_⟩,rfl⟩
  · rw [second.2,swept,length]
    exact Sweep.run_clears _
  · rw [swept',length',first.2]
    exact Sweep.run_clears _

lemma Emptied.coherent_iff {g : Graph} (coherent : Coherent g) (emptied : Emptied g g' name) :
    Coherent (g'.forget name) ↔ g'.list (.reverse,name) = [] ∧ g'.list (.edges,name) = [] := by
  have cleaned := emptied.cleaned
  constructor
  · intro after
    have empty : ∀ side,g'.list (side,name) = [] := by
      intro side
      apply eq_nil_iff_forall_not_mem.mpr
      intro x member
      have other : x ≠ name := by
        rintro rfl
        exact coherent.irreflexive side x (cleaned.shrunk.lists _ _ member)
      have left : name ∈ (g'.forget name).list (opposite side,x) := by
        rw [forget_list,if_neg other]
        exact (mem_opposite cleaned.mirror side name x).mp member
      have gone := (mem_opposite after.mirror side name x).mpr left
      rw [forget_list,if_pos rfl] at gone
      cases gone
    exact ⟨empty .reverse,empty .edges⟩
  · rintro ⟨incoming,outgoing⟩
    have empty : ∀ side,g'.list (side,name) = [] := by
      intro side
      cases side with
      | edges => exact outgoing
      | reverse => exact incoming
    have absent : ∀ key,name ∉ g'.list key := by
      rintro ⟨side,x⟩ member
      have back := (mem_opposite cleaned.mirror side x name).mp member
      rw [empty] at back
      cases back
    have remains : Shrunk g g' := ⟨cleaned.shrunk.keys,cleaned.shrunk.lists⟩
    have shrunk := remains.trans (forget_shrunk g' name)
    refine ⟨shrunk.acyclic coherent.acyclic,?_,?_⟩
    · intro x y
      rw [forget_list,forget_list]
      dsimp only
      split_ifs with left right right
      · rfl
      · rw [left,count_nil,count_eq_zero.mpr (absent (.reverse,y))]
      · rw [right,count_nil,count_eq_zero.mpr (absent (.edges,x))]
      · exact cleaned.mirror x y
    · intro side other mentioned
      have nodes : (g'.forget name).nodes = g.nodes.erase name := cleaned.nodes
      rw [nodes,Table.mem_erase]
      refine ⟨coherent.named side other (shrunk.mentions mentioned),?_⟩
      intro same
      have equal : other = name := same
      rcases (mentions_iff _ _ _).mp mentioned with known | ⟨x,member⟩
      · exact known ((forget_lookup g' name (side,other)).trans (if_pos equal))
      · rw [equal] at member
        exact absent _ ((forget_shrunk g' name).lists _ _ member)

lemma removeNode_coherent_iff (spare : Slice → Nat) {g : Graph} (formed : g.WellFormed) (coherent : Coherent g)
    (name : String) : (g.removeNode spare name).WellFormed ∧ (Coherent (g.removeNode spare name) ↔
        Sweep.Clears (g.list (.reverse,name)) ∧ Sweep.Clears (g.list (.edges,name))) := by
  obtain ⟨g',emptied,result⟩ := removeNode_empties spare formed coherent name
  rw [result]
  refine ⟨forget_wellFormed emptied.cleaned.formed name,?_⟩
  rw [emptied.coherent_iff coherent,emptied.incoming,emptied.outgoing]

section
variable (g : Graph)
include g

lemma touch_slot (key : Side × String) : (g.touch key).slot = g.slot := by
  unfold touch
  split_ifs with empty
  · rw [assign_slot,← empty,Function.update_eq_self]
  · rfl

lemma touch_memory (key : Side × String) : (g.touch key).memory = g.memory := by
  unfold touch
  split_ifs
  · exact assign_memory _ _ _
  · rfl

lemma touch_nodes (key : Side × String) : (g.touch key).nodes = g.nodes := by
  unfold touch
  split_ifs
  · exact assign_nodes _ _ _
  · rfl

lemma assign_keys (key : Side × String) (result : Memory String × Slice) (other : Side × String)
    (known : ((g.assign key result).lists other.1).lookup other.2 ≠ none) :
    other = key ∨ (g.lists other.1).lookup other.2 ≠ none := by
  rw [assign_lookup] at known
  split_ifs at known with same
  · exact .inl same
  · exact .inr known

lemma touch_keys (key other : Side × String) (known : ((g.touch key).lists other.1).lookup other.2 ≠ none) :
    other = key ∨ (g.lists other.1).lookup other.2 ≠ none := by
  unfold touch at known
  split_ifs at known
  · exact assign_keys g key _ other known
  · exact .inr known

lemma addNode_slot (name : String) : (g.addNode name).slot = g.slot := by
  rw [addNode,touch_slot,touch_slot]
  rfl

lemma addNode_memory (name : String) : (g.addNode name).memory = g.memory := by
  rw [addNode,touch_memory,touch_memory]

lemma addNode_list (name : String) : (g.addNode name).list = g.list := by
  funext key
  rw [list,addNode_memory,addNode_slot]
  rfl

lemma addNode_nodes (name : String) : (g.addNode name).nodes = g.nodes.insert name := by
  rw [addNode,touch_nodes,touch_nodes]

end

lemma addNode_coherent {g : Graph} (coherent : Coherent g) (name : String) : Coherent (g.addNode name) := by
  have lists := addNode_list g name
  have edges : (g.addNode name).Edge = g.Edge := by
    unfold Edge
    rw [lists]
  refine ⟨?_,?_,?_⟩
  · rw [edges]
    exact coherent.acyclic
  · rw [lists]
    exact coherent.mirror
  · intro side other mentioned
    rw [addNode_nodes,Table.mem_insert]
    by_cases same : other = name
    · exact .inl same
    · refine .inr ⟨coherent.named side other ((mentions_iff g side other).mpr ?_),same⟩
      rcases (mentions_iff _ _ _).mp mentioned with known | member
      · left
        rcases touch_keys _ _ (side,other) known with new | known'
        · exact absurd (congrArg Prod.snd new) same
        · rcases touch_keys _ _ (side,other) known' with new | old
          · exact absurd (congrArg Prod.snd new) same
          · exact old
      · right
        rw [lists] at member
        exact member

section AddEdge

variable (spare : Slice → Nat) {g : Graph} (formed : g.WellFormed) (src dst : String)

def connect (g : Graph) : Graph := (g.push spare (.edges,src) dst).push spare (.reverse,dst) src

include formed

lemma connect_wellFormed : (g.connect spare src dst).WellFormed :=
  push_wellFormed spare (push_wellFormed spare formed _ _) _ _

lemma connect_edges (x : String) :
    (g.connect spare src dst).list (.edges,x) = if x = src then g.list (.edges,x) ++ [dst] else g.list (.edges,x) := by
  rw [connect,push_list spare (push_wellFormed spare formed _ _),if_neg (by simp),push_list spare formed]
  by_cases same : x = src
  all_goals simp [same]

lemma connect_reverse (y : String) :
    (g.connect spare src dst).list (.reverse,y) = if y = dst then g.list (.reverse,y) ++ [src] else g.list (.reverse,y) := by
  rw [connect,push_list spare (push_wellFormed spare formed _ _),push_list spare formed,push_list spare formed]
  by_cases same : y = dst
  all_goals simp [same]

lemma connect_mirror (mirror : ∀ x y,(g.list (.edges,x)).count y = (g.list (.reverse,y)).count x) (x y : String) :
    ((g.connect spare src dst).list (.edges,x)).count y = ((g.connect spare src dst).list (.reverse,y)).count x := by
  rw [connect_edges spare formed,connect_reverse spare formed]
  by_cases left : x = src
  · by_cases right : y = dst
    · simp [left,right,mirror]
    · simp [left,right,Ne.symm right,mirror]
  · by_cases right : y = dst
    · simp [left,right,Ne.symm left,mirror]
    · simp [left,right,mirror]

lemma connect_edge (x y : String) : (g.connect spare src dst).Edge x y ↔ g.Edge x y ∨ x = src ∧ y = dst := by
  rw [Edge,connect_edges spare formed]
  by_cases same : x = src
  all_goals simp [Edge,same]

lemma push_mentions (key : Side × String) (name : String) {other : String}
    (mentioned : (g.push spare key name).Mentions side other) :
    other = key.2 ∨ other = name ∨ g.Mentions side other := by
  rw [mentions_iff g]
  rcases (mentions_iff _ _ _).mp mentioned with known | ⟨x,member⟩
  · rcases assign_keys g key _ (side,other) known with new | old
    · exact .inl (congrArg Prod.snd new)
    · exact .inr (.inr (.inl old))
  · rw [push_list spare formed] at member
    split_ifs at member with same
    · rcases mem_append.mp member with old | new
      · rw [← same] at old
        exact .inr (.inr (.inr ⟨x,old⟩))
      · exact .inr (.inl (mem_singleton.mp new))
    · exact .inr (.inr (.inr ⟨x,member⟩))

lemma connect_mentions (mentioned : (g.connect spare src dst).Mentions side name) :
    name = src ∨ name = dst ∨ g.Mentions side name := by
  rcases push_mentions spare (push_wellFormed spare formed _ _) _ _ mentioned with here | here | before
  · exact .inr (.inl here)
  · exact .inl here
  · exact push_mentions spare formed _ _ before

lemma connect_acyclic (acyclic : ∀ x,¬ TransGen g.Edge x x) (oneWay : g.hasPath dst src = false) (x : String) :
    ¬ TransGen (g.connect spare src dst).Edge x x := by
  have path : ¬ ReflTransGen g.Edge dst src := by
    intro reach
    rw [(hasPath_iff g dst src).mpr reach] at oneWay
    cases oneWay
  have edges : (g.connect spare src dst).Edge = fun x y => g.Edge x y ∨ x = src ∧ y = dst := by
    funext x y
    exact propext (connect_edge spare formed src dst x y)
  rw [edges]
  exact Search.acyclic_insert acyclic path x

lemma connect_coherent (coherent : Coherent g) (known : src ∈ g.nodes.rows) (known' : dst ∈ g.nodes.rows)
    (oneWay : g.hasPath dst src = false) : Coherent (g.connect spare src dst) := by
  refine ⟨connect_acyclic spare formed src dst coherent.acyclic oneWay,connect_mirror spare formed src dst coherent.mirror,?_⟩
  intro side name mentioned
  rcases connect_mentions spare formed src dst mentioned with rfl | rfl | old
  · exact known
  · exact known'
  · exact coherent.named side name old

end AddEdge

lemma hasNode_iff (g : Graph) (name : String) : g.hasNode name = true ↔ name ∈ g.nodes.rows := by
  rw [hasNode,Option.isSome_iff_exists]
  constructor
  · rintro ⟨n,found⟩
    have same := g.nodes.lookup_key found
    rw [← same]
    exact g.nodes.lookup_mem found
  · intro member
    exact ⟨name,g.nodes.lookup_of_mem member⟩

lemma addEdge_ok (spare : Slice → Nat) {g : Graph} {src dst : String} (ok : g.addEdge spare src dst = .ok g') :
    src ∈ g.nodes.rows ∧ dst ∈ g.nodes.rows ∧ g.hasPath dst src = false ∧ g' = g.connect spare src dst := by
  unfold addEdge at ok
  split_ifs at ok with missing cycle
  cases ok
  simp only [Bool.or_eq_true,Bool.not_eq_true',not_or,Bool.not_eq_false,hasNode_iff] at missing
  exact ⟨missing.1,missing.2,by simpa using cycle,rfl⟩

end Graph

open Tempest.Dag.Graph

def Clearing (g : Graph) : Op → Prop
  | .removeNode name => Sweep.Clears (g.list (.reverse,name)) ∧ Sweep.Clears (g.list (.edges,name))
  | .addNode _ | .addEdge .. | .removeEdge .. => True

lemma step_coherent_iff (spare : Slice → Nat) {g : Graph} (formed : g.WellFormed) (coherent : Coherent g) (op : Op) :
    (step spare g op).WellFormed ∧ (Coherent (step spare g op) ↔ Clearing g op) := by
  cases op with
  | addNode name =>
    refine ⟨?_,iff_of_true (addNode_coherent coherent name) trivial⟩
    rw [step,WellFormed,addNode_memory,addNode_slot]
    exact formed
  | removeNode name => exact removeNode_coherent_iff spare formed coherent name
  | addEdge src dst =>
    rw [step]
    cases result : g.addEdge spare src dst with
    | error e => exact ⟨formed,iff_of_true coherent trivial⟩
    | ok g' =>
      obtain ⟨known,known',oneWay,rfl⟩ := addEdge_ok spare result
      exact ⟨connect_wellFormed spare formed src dst,
        iff_of_true (connect_coherent spare formed src dst coherent known known' oneWay) trivial⟩
  | removeEdge src dst =>
    have cleaned : Cleaned g g := ⟨formed,rfl,Shrunk.refl g,coherent.mirror⟩
    have cleaned' := cleaned.removeEdge spare src dst
    exact ⟨cleaned'.formed,iff_of_true (coherent.cleaned cleaned') trivial⟩

lemma new_wellFormed : ({} : Graph).WellFormed := by
  constructor
  · rintro ⟨side,name⟩
    cases side <;> exact valid_nil _
  · rintro ⟨side,name⟩ _ _ capable
    cases side <;> cases capable

lemma new_coherent : Coherent {} := by
  have none_ : ∀ key,({} : Graph).list key = [] := by
    rintro ⟨side,name⟩
    cases side <;> rfl
  refine ⟨?_,?_,?_⟩
  · intro x cycle
    obtain ⟨y,edge,_⟩ := TransGen.head'_iff.mp cycle
    rw [Edge] at edge
    cases edge
  · intro x y
    rw [none_]
    rfl
  · intro side name mentioned
    rcases (mentions_iff _ _ _).mp mentioned with known | ⟨x,member⟩
    · cases side <;> exact absurd rfl known
    · rw [none_] at member
      cases member

/-- The graph is coherent in every state exactly if each `RemoveNode` finds lists that its
loops clear, whatever capacity the allocations leave to spare. -/
theorem coherent_throughout_iff (spare : Slice → Nat) (ops : List Op) :
    Throughout (step spare) Coherent {} ops ↔ Along (step spare) Clearing {} ops := by
  rw [throughout_iff_along new_coherent]
  apply Along.congr (P := fun g => g.WellFormed ∧ Coherent g)
  · rintro g op ⟨formed,coherent⟩ clearing
    obtain ⟨formed',same⟩ := step_coherent_iff spare formed coherent op
    exact ⟨formed',same.mpr clearing⟩
  · rintro g op ⟨formed,coherent⟩
    exact (step_coherent_iff spare formed coherent op).2
  · exact ⟨new_wellFormed,new_coherent⟩

/-- With three edges into a node, the second one outlives it. -/
theorem three_sources_incoherent :
    ¬ Throughout (step (fun _ => 0)) Coherent {}
      [.addNode "a",.addNode "b",.addNode "c",.addNode "t",.addEdge "a" "t",.addEdge "b" "t",.addEdge "c" "t",
        .removeNode "t"] := by
  intro holds
  have mirror := (holds _ prefix_rfl).mirror "b" "t"
  revert mirror
  decide

end Tempest.Dag
