import Mathlib.Algebra.Ring.Nat
import Tempest.Lib.Interaction
import Tempest.Lib.Successor

/-! The consistent hash of `internal/consistenthash`. A node has a number of places on the
ring, and a key belongs to the node at the first place at or above its hash. Places of
different nodes may coincide: the map has one node for a place, the list of places has
one entry for each. Names and keys are bytes, as they are hashed. -/
open List
namespace Tempest.ConsistentHash
open Interaction Successor

local instance lawfulBytes : LawfulBEq (List UInt8) := inferInstance

def crcBit (crc : UInt32) : UInt32 := if crc &&& 1 = 1 then (crc >>> 1) ^^^ 0xEDB88320 else crc >>> 1

def crcByte (crc : UInt32) (byte : UInt8) : UInt32 :=
  crcBit (crcBit (crcBit (crcBit (crcBit (crcBit (crcBit (crcBit (crc ^^^ byte.toUInt32))))))))

def checksumIEEE (bytes : List UInt8) : UInt32 := ~~~ (bytes.foldl crcByte 0xFFFFFFFF)

/-- `string(rune(i))`: the conversion to `rune` keeps 32 bits, and what is no code point
becomes the replacement character. -/
def runeText (i : Nat) : List UInt8 :=
  let r := i % 2 ^ 32
  if r.isValidChar then String.utf8EncodeChar (Char.ofNat r) else [0xEF,0xBF,0xBD]

structure HashRing where
  ring : Nat → Option (List UInt8) := fun _ => none
  sortedKeys : List Nat := []
  nodes : List (List UInt8) := []
  replicas : Nat

def new (replicas : Int) : HashRing := { replicas := if replicas ≤ 0 then 150 else replicas.toNat }

namespace HashRing

def hash (key : List UInt8) : Nat := (checksumIEEE key).toNat

def place (node : List UInt8) (i : Nat) : Nat := hash (node ++ [45] ++ runeText i)

def places (replicas : Nat) (node : List UInt8) : List Nat := (List.range replicas).map (place node)

def addReplica (node : List UInt8) (r : HashRing) (i : Nat) : HashRing :=
  { r with ring := Function.update r.ring (place node i) (some node), sortedKeys := r.sortedKeys ++ [place node i] }

def add (r : HashRing) (node : List UInt8) : HashRing :=
  if node ∈ r.nodes then r
  else
    let r := (List.range r.replicas).foldl (addReplica node) { r with nodes := node :: r.nodes }
    { r with sortedKeys := r.sortedKeys.insertionSort (· ≤ ·) }

def removeReplica (node : List UInt8) (r : HashRing) (i : Nat) : HashRing :=
  { r with ring := Function.update r.ring (place node i) none, sortedKeys := r.sortedKeys.erase (place node i) }

def remove (r : HashRing) (node : List UInt8) : HashRing :=
  if node ∉ r.nodes then r
  else (List.range r.replicas).foldl (removeReplica node) { r with nodes := r.nodes.erase node }

def get (r : HashRing) (key : List UInt8) : List UInt8 :=
  if r.sortedKeys.length = 0 then [] else ((successor r.sortedKeys (hash key)).bind r.ring).getD []

end HashRing

inductive Op
  | add (node : List UInt8)
  | remove (node : List UInt8)

def step (r : HashRing) : Op → HashRing
  | .add node => r.add node
  | .remove node => r.remove node

def Covered (r : HashRing) : Prop := r.nodes ≠ [] → ∀ key, r.get key ∈ r.nodes

def Minimal (r : HashRing) : Op → Prop
  | .add node => ∀ key, (r.add node).get key ≠ r.get key → (r.add node).get key = node
  | .remove node => ∀ key, (r.remove node).get key ≠ r.get key → r.get key = node

def Unshared (r : HashRing) : Op → Prop
  | .add _ => True
  | .remove node => node ∈ r.nodes → ∀ other ∈ r.nodes, other ≠ node →
      ∀ place ∈ HashRing.places r.replicas node, place ∉ HashRing.places r.replicas other

instance (r : HashRing) : ∀ op, Decidable (Unshared r op)
  | .add _ => .isTrue trivial
  | .remove node => inferInstanceAs (Decidable (node ∈ r.nodes → ∀ other ∈ r.nodes, other ≠ node →
      ∀ place ∈ HashRing.places r.replicas node, place ∉ HashRing.places r.replicas other))

namespace HashRing

variable {r : HashRing} {node : List UInt8}

/-- The list has the places of all present nodes, and the map has at each of them a node
whose place it is. -/
structure Inv (r : HashRing) : Prop where
  positive : 0 < r.replicas
  distinct : r.nodes.Nodup
  sorted : r.sortedKeys.Pairwise (· ≤ ·)
  keys : r.sortedKeys.Perm (r.nodes.flatMap (places r.replicas))
  held : ∀ p ∈ r.sortedKeys, ∃ n ∈ r.nodes, r.ring p = some n ∧ p ∈ places r.replicas n

lemma places_ne_nil (positive : 0 < r.replicas) (node : List UInt8) : places r.replicas node ≠ [] := by
  intro empty
  have length := congrArg List.length empty
  simp only [places,length_map,length_range,length_nil] at length
  omega

lemma get_of_ne_nil (some_ : r.sortedKeys ≠ []) (key : List UInt8) :
    r.get key = ((successor r.sortedKeys (hash key)).bind r.ring).getD [] :=
  if_neg (fun empty => some_ (length_eq_zero_iff.mp empty))

lemma Inv.sortedKeys_ne_nil (inv : Inv r) (some_ : r.nodes ≠ []) : r.sortedKeys ≠ [] := by
  intro empty
  have none_ := inv.keys
  rw [empty] at none_
  have lists := flatMap_eq_nil_iff.mp none_.nil_eq.symm
  obtain ⟨n,member⟩ := exists_mem_of_ne_nil _ some_
  exact places_ne_nil inv.positive n (lists n member)

lemma Inv.get_spec (inv : Inv r) (some_ : r.nodes ≠ []) (key : List UInt8) :
    ∃ p,successor r.sortedKeys (hash key) = some p ∧ p ∈ r.sortedKeys ∧ r.ring p = some (r.get key) ∧
      r.get key ∈ r.nodes ∧ p ∈ places r.replicas (r.get key) := by
  have keys := inv.sortedKeys_ne_nil some_
  obtain ⟨p,found,member,-⟩ := successor_spec inv.sorted keys (hash key)
  obtain ⟨n,present,stored,own⟩ := inv.held p member
  have same : r.get key = n := by
    rw [get_of_ne_nil keys,found,Option.bind_some,stored,Option.getD_some]
  rw [same]
  exact ⟨p,found,member,stored,present,own⟩

lemma Inv.covered (inv : Inv r) : Covered r := by
  intro some_ key
  obtain ⟨p,-,-,-,present,-⟩ := inv.get_spec some_ key
  exact present

lemma get_eq_of_subset {r' : HashRing} {p : Nat} {key : List UInt8} (sorted : r.sortedKeys.Pairwise (· ≤ ·))
    (sorted' : r'.sortedKeys.Pairwise (· ≤ ·)) (subset : ∀ q ∈ r.sortedKeys,q ∈ r'.sortedKeys)
    (found : successor r'.sortedKeys (hash key) = some p) (kept : p ∈ r.sortedKeys) (same : r.ring p = r'.ring p) :
    r.get key = r'.get key := by
  have found' := successor_of_subset sorted' sorted subset found kept
  rw [get_of_ne_nil (ne_nil_of_mem kept),get_of_ne_nil (ne_nil_of_mem (subset p kept)),found,found',
    Option.bind_some,Option.bind_some,same]

section Steps

lemma addReplica_foldl (indices : List Nat) (r : HashRing) :
    indices.foldl (addReplica node) r =
      { r with
        ring := fun p => if p ∈ indices.map (place node) then some node else r.ring p
        sortedKeys := r.sortedKeys ++ indices.map (place node) } := by
  induction indices generalizing r with
  | nil => simp
  | cons i rest ih =>
    rw [foldl_cons,ih,addReplica]
    simp only [map_cons,mem_cons,append_assoc,singleton_append,HashRing.mk.injEq,and_true]
    funext p
    by_cases same : p = place node i
    all_goals simp [same]

lemma removeReplica_foldl (indices : List Nat) (r : HashRing) :
    indices.foldl (removeReplica node) r =
      { r with
        ring := fun p => if p ∈ indices.map (place node) then none else r.ring p
        sortedKeys := r.sortedKeys.diff (indices.map (place node)) } := by
  induction indices generalizing r with
  | nil => simp
  | cons i rest ih =>
    rw [foldl_cons,ih,removeReplica]
    simp only [map_cons,mem_cons,diff_cons,HashRing.mk.injEq,and_true]
    funext p
    by_cases same : p = place node i
    all_goals simp [same]

lemma add_eq (unknown : node ∉ r.nodes) :
    r.add node =
      { r with
        ring := fun p => if p ∈ places r.replicas node then some node else r.ring p
        sortedKeys := (r.sortedKeys ++ places r.replicas node).insertionSort (· ≤ ·)
        nodes := node :: r.nodes } := by
  rw [add,if_neg unknown,addReplica_foldl]
  rfl

lemma remove_eq (present : node ∈ r.nodes) :
    r.remove node =
      { r with
        ring := fun p => if p ∈ places r.replicas node then none else r.ring p
        sortedKeys := r.sortedKeys.diff (places r.replicas node)
        nodes := r.nodes.erase node } := by
  rw [remove,if_neg (not_not.mpr present),removeReplica_foldl]
  rfl

lemma Inv.add (inv : Inv r) (unknown : node ∉ r.nodes) : Inv (r.add node) := by
  rw [add_eq unknown]
  have members : ∀ p,p ∈ (r.sortedKeys ++ places r.replicas node).insertionSort (· ≤ ·) ↔
      p ∈ r.sortedKeys ∨ p ∈ places r.replicas node := by simp
  refine ⟨inv.positive,nodup_cons.mpr ⟨unknown,inv.distinct⟩,pairwise_insertionSort _ _,?_,?_⟩
  · have sorted := perm_insertionSort (· ≤ ·) (r.sortedKeys ++ places r.replicas node)
    exact sorted.trans (perm_append_comm.trans (inv.keys.append_left _))
  · intro p member
    dsimp only
    by_cases own : p ∈ places r.replicas node
    · exact ⟨node,mem_cons_self,if_pos own,own⟩
    · obtain ⟨n,present,stored,place⟩ := inv.held p (((members p).mp member).resolve_right own)
      exact ⟨n,mem_cons_of_mem _ present,by rw [if_neg own,stored],place⟩

lemma Inv.add_minimal (inv : Inv r) (node : List UInt8) : Minimal r (.add node) := by
  intro key changed
  by_cases known : node ∈ r.nodes
  · exact absurd (congrArg (fun r => HashRing.get r key) (if_pos known)) changed
  · have inv' := inv.add known
    have nodes : (r.add node).nodes ≠ [] := by
      rw [add_eq known]
      exact cons_ne_nil _ _
    obtain ⟨p,found,member,stored,-,-⟩ := inv'.get_spec nodes key
    have members : ∀ q,q ∈ (r.add node).sortedKeys ↔ q ∈ r.sortedKeys ∨ q ∈ places r.replicas node := by
      rw [add_eq known]
      simp
    have ring : (r.add node).ring p = if p ∈ places r.replicas node then some node else r.ring p := by rw [add_eq known]
    by_cases own : p ∈ places r.replicas node
    · rw [stored,if_pos own,Option.some_inj] at ring
      exact ring
    · rw [if_neg own] at ring
      have old := ((members p).mp member).resolve_right own
      have same := get_eq_of_subset inv.sorted inv'.sorted (fun q inside => (members q).mpr (.inl inside)) found old ring.symm
      exact absurd same.symm changed

section Remove

variable (inv : Inv r) (present : node ∈ r.nodes) (unshared : Unshared r (.remove node))

include inv present

lemma Inv.remove_keys : (r.remove node).sortedKeys.Perm ((r.nodes.erase node).flatMap (places r.replicas)) := by
  rw [remove_eq present]
  have split := (perm_cons_erase present).flatMap_right (places r.replicas)
  rw [flatMap_cons] at split
  have cancel : ∀ own others : List Nat,(own ++ others).diff own = others := by
    intro own others
    induction own with
    | nil => rfl
    | cons p own ih => rw [cons_append,diff_cons,erase_cons_head,ih]
  have less := (inv.keys.trans split).diff_right (places r.replicas node)
  rw [cancel] at less
  exact less

lemma Inv.mem_remove (p : Nat) :
    p ∈ (r.remove node).sortedKeys ↔ ∃ n ∈ r.nodes,n ≠ node ∧ p ∈ places r.replicas n := by
  rw [(inv.remove_keys present).mem_iff,mem_flatMap]
  constructor
  · rintro ⟨n,member,own⟩
    obtain ⟨apart,old⟩ := (List.Nodup.mem_erase_iff inv.distinct).mp member
    exact ⟨n,old,apart,own⟩
  · rintro ⟨n,old,apart,own⟩
    exact ⟨n,(List.Nodup.mem_erase_iff inv.distinct).mpr ⟨apart,old⟩,own⟩

include unshared

lemma Inv.remove : Inv (r.remove node) := by
  have keys := inv.remove_keys present
  have members := inv.mem_remove present
  rw [remove_eq present] at keys members ⊢
  refine ⟨inv.positive,inv.distinct.erase node,inv.sorted.sublist (diff_sublist _ _),keys,?_⟩
  intro p member
  dsimp only
  obtain ⟨m,old,apart,own⟩ := (members p).mp member
  -- No other node has a place of the removed one, so neither has the node that is stored here.
  have foreign := fun shared => unshared present m old apart p shared own
  rw [if_neg foreign]
  obtain ⟨n,present',stored,own'⟩ := inv.held p (inv.keys.mem_iff.mpr (mem_flatMap.mpr ⟨m,old,own⟩))
  have other : n ≠ node := by
    rintro rfl
    exact foreign own'
  exact ⟨n,(List.Nodup.mem_erase_iff inv.distinct).mpr ⟨other,present'⟩,stored,own'⟩

lemma Inv.remove_minimal (key : List UInt8) (changed : (r.remove node).get key ≠ r.get key) : r.get key = node := by
  have inv' := inv.remove present unshared
  obtain ⟨p,found,member,stored,present',own⟩ := inv.get_spec (ne_nil_of_mem present) key
  by_contra other
  have kept := (inv.mem_remove present p).mpr ⟨r.get key,present',other,own⟩
  have subset : ∀ q ∈ (r.remove node).sortedKeys,q ∈ r.sortedKeys := by
    intro q inside
    obtain ⟨n,old,-,place⟩ := (inv.mem_remove present q).mp inside
    exact inv.keys.mem_iff.mpr (mem_flatMap.mpr ⟨n,old,place⟩)
  have ring : (r.remove node).ring p = r.ring p := by
    rw [remove_eq present]
    exact if_neg (fun shared => unshared present (r.get key) present' other p shared own)
  exact changed (get_eq_of_subset inv'.sorted inv.sorted subset found kept ring)

end Remove

end Steps

lemma Inv.step (inv : Inv r) (op : Op) (unshared : Unshared r op) : Inv (step r op) ∧ Minimal r op := by
  cases op with
  | add node =>
    refine ⟨?_,inv.add_minimal node⟩
    by_cases known : node ∈ r.nodes
    · rw [ConsistentHash.step,HashRing.add,if_pos known]
      exact inv
    · exact inv.add known
  | remove node =>
    by_cases known : node ∈ r.nodes
    · exact ⟨inv.remove known unshared,fun key changed => inv.remove_minimal known unshared key changed⟩
    · have same : r.remove node = r := if_pos known
      rw [ConsistentHash.step,same]
      exact ⟨inv,fun key changed => absurd (congrArg (fun r => HashRing.get r key) same) changed⟩

end HashRing

lemma new_inv (replicas : Int) : HashRing.Inv (new replicas) := by
  refine ⟨?_,nodup_nil,List.Pairwise.nil,List.Perm.refl _,by simp [new]⟩
  unfold new
  dsimp only
  split_ifs
  · decide
  · omega

/-- In every run in which no removed node shares a place with a node that stays, every key
has a present node in every state, and each step moves only the keys it must. -/
theorem covered_minimal_of_unshared (replicas : Int) (ops : List Op) (unshared : Along step Unshared (new replicas) ops) :
    Throughout step Covered (new replicas) ops ∧ Along step Minimal (new replicas) ops := by
  have kept :=
    Along.throughout (fun _ op inv unshared => (inv.step op unshared).1) (new_inv replicas) unshared
  refine ⟨kept.mono (fun _ inv => inv.covered),?_⟩
  exact Along.weaken (fun _ op inv unshared => (inv.step op unshared).1) (fun _ op inv unshared => (inv.step op unshared).2)
    (new_inv replicas) unshared

def bytes (text : String) : List UInt8 := text.toList.map (fun c => c.toNat.toUInt8)

/-- The two names have different places, so the first can be removed. -/
theorem covered_minimal_two_nodes :
    Throughout step Covered (new 2) [.add (bytes "east"),.add (bytes "west"),.remove (bytes "east")] ∧
      Along step Minimal (new 2) [.add (bytes "east"),.add (bytes "west"),.remove (bytes "east")] :=
  covered_minimal_of_unshared 2 _ (by decide +kernel)

/-- The checksums of the two names are equal, so their places are. Without the second node
the first one is present, and no key belongs to it. -/
theorem colliding_names_uncovered :
    ¬ Throughout step Covered (new 1) [.add (bytes "plumless"),.add (bytes "buckeroo"),.remove (bytes "buckeroo")] := by
  intro covered
  have present := covered _ prefix_rfl (by decide +kernel) (bytes "key")
  revert present
  decide +kernel

end Tempest.ConsistentHash
