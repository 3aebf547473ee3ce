import Tempest.Lib.BinarySearch
import Mathlib.Data.List.Sort

/-! Places on a circle in a sorted list. The place for a point is the first one at or above
it, and the lowest one if there is none. -/
namespace Successor
open BinarySearch List

variable {κ : Type} [LinearOrder κ]

def index (places : List κ) (point : κ) : Nat :=
  let i := search places.length (fun i => places[i]?.any (fun place => point ≤ place))
  if places.length ≤ i then 0 else i

def successor (places : List κ) (point : κ) : Option κ := places[index places point]?

/-- Going up from the point, and on from the lowest place, the first place comes no later
than the second. -/
def NoLater (point p q : κ) : Prop := if point ≤ p then point ≤ q → p ≤ q else q < point ∧ p ≤ q

variable {places others : List κ} {point p q : κ}

lemma NoLater.antisymm (first : NoLater point p q) (second : NoLater point q p) : p = q := by
  unfold NoLater at first second
  split_ifs at first second with left right right
  · exact le_antisymm (first right) (second left)
  · exact absurd left (not_le.mpr second.1)
  · exact absurd right (not_le.mpr first.1)
  · exact le_antisymm first.2 second.2

lemma successor_spec (sorted : places.Pairwise (· ≤ ·)) (some_ : places ≠ []) (point : κ) :
    ∃ p,successor places point = some p ∧ p ∈ places ∧ ∀ q ∈ places,NoLater point p q := by
  have rises : ∀ i j (left : i < places.length) (right : j < places.length),i ≤ j → places[i] ≤ places[j] := by
    intro i j left right below
    rcases Nat.lt_or_eq_of_le below with less | rfl
    · exact pairwise_iff_getElem.mp sorted i j left right less
    · exact le_rfl
  let test : Nat → Bool := fun i => places[i]?.any (fun place => point ≤ place)
  have passes_iff : ∀ i (inside : i < places.length),test i = true ↔ point ≤ places[i] := by
    intro i inside
    simp only [test,getElem?_eq_getElem inside,Option.any_some,decide_eq_true_eq]
  have monotone : ∀ i j,i ≤ j → j < places.length → test i = true → test j = true := by
    intro i j below inside passes
    rw [passes_iff j inside]
    exact ((passes_iff i (by omega)).mp passes).trans (rises i j (by omega) inside below)
  have around := search_around monotone
  have positive := length_pos_iff.mpr some_
  have below : ∀ k (inside : k < places.length),k < search places.length test → places[k] < point := by
    intro k inside before
    rw [← not_le,← passes_iff k inside,around.before k before]
    exact Bool.false_ne_true
  by_cases behind : places.length ≤ search places.length test
  · -- Every place is below the point, so the search starts again from the lowest one.
    have zero : index places point = 0 := if_pos behind
    refine ⟨places[0],by rw [successor,zero,getElem?_eq_getElem positive],getElem_mem positive,?_⟩
    intro q member
    obtain ⟨k,inside,rfl⟩ := mem_iff_getElem.mp member
    rw [NoLater,if_neg (not_le.mpr (below 0 positive (by omega)))]
    exact ⟨below k inside (by omega),rises 0 k positive inside (Nat.zero_le k)⟩
  · have inside := not_le.mp behind
    have found : index places point = search places.length test := if_neg behind
    refine ⟨places[search places.length test],by rw [successor,found,getElem?_eq_getElem inside],
      getElem_mem inside,?_⟩
    intro q member
    obtain ⟨k,inside',rfl⟩ := mem_iff_getElem.mp member
    rw [NoLater,if_pos ((passes_iff _ inside).mp (around.behind _ le_rfl inside))]
    intro above
    apply rises _ _ inside inside'
    by_contra before
    exact absurd above (not_le.mpr (below k inside' (by omega)))

lemma successor_of_subset (sorted : places.Pairwise (· ≤ ·)) (sorted' : others.Pairwise (· ≤ ·))
    (subset : ∀ q ∈ others,q ∈ places) (found : successor places point = some p) (left : p ∈ others) :
    successor others point = some p := by
  have some_ : places ≠ [] := by
    rintro rfl
    cases found
  obtain ⟨p',same,_,first⟩ := successor_spec sorted some_ point
  obtain ⟨q,found',inside,first'⟩ := successor_spec sorted' (ne_nil_of_mem left) point
  rw [found,Option.some_inj] at same
  subst same
  rw [found',NoLater.antisymm (first' p left) (first q (subset q inside))]

end Successor
