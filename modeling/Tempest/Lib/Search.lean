import Mathlib.Algebra.BigOperators.Group.List.Basic
import Mathlib.Algebra.Ring.Nat

/-! Depth-first search with a stack and a set of visited elements. Fuel of one more than
the search has iterations is enough; it is bounded by the number of edges. -/
namespace Search
open Relation List

variable {α : Type} {next : α → List α} {goal : α}

/-- What was visited leads only to what was visited or is on the stack. -/
structure Explored (next : α → List α) (goal : α) (stack visited : List α) : Prop where
  missed : goal ∉ visited
  closed : ∀ x ∈ visited, ∀ y ∈ next x, y ∈ visited ∨ y ∈ stack

variable {stack visited : List α} {x : α}

lemma Explored.skip (explored : Explored next goal (x :: stack) visited)
    (seen : x ∈ visited) : Explored next goal stack visited := by
  refine ⟨explored.missed,?_⟩
  intro y known z edge
  rcases explored.closed y known z edge with old | waiting
  · exact .inl old
  · rcases mem_cons.mp waiting with rfl | behind
    · exact .inl seen
    · exact .inr behind

lemma Explored.visit (explored : Explored next goal (x :: stack) visited)
    (other : x ≠ goal) : Explored next goal ((next x).reverse ++ stack) (x :: visited) := by
  refine ⟨?_,?_⟩
  · rw [mem_cons,not_or]
    exact ⟨Ne.symm other,explored.missed⟩
  · intro y known z edge
    rw [mem_cons,mem_append,mem_reverse]
    rcases mem_cons.mp known with rfl | old
    · exact .inr (.inl edge)
    · rcases explored.closed y old z edge with before | waiting
      · exact .inl (.inr before)
      · rcases mem_cons.mp waiting with rfl | behind
        · exact .inl (.inl rfl)
        · exact .inr (.inr behind)

lemma Explored.unreachable (explored : Explored next goal [] visited) (seen : x ∈ visited) :
    ¬ ReflTransGen (fun a b => b ∈ next a) x goal := by
  intro path
  have inside : ∀ y,ReflTransGen (fun a b => b ∈ next a) x y → y ∈ visited := by
    intro y reach
    induction reach with
    | refl => exact seen
    | tail _ edge ih =>
      rcases explored.closed _ ih _ edge with old | waiting
      · exact old
      · cases waiting
  exact explored.missed (inside goal path)

variable [DecidableEq α]

def search (next : α → List α) (goal : α) : Nat → List α → List α → Option Bool
  | 0, _, _ => none
  | _ + 1, [], _ => some false
  | fuel + 1, x :: stack, visited =>
    if x = goal then some true
    else if x ∈ visited then search next goal fuel stack visited
    else search next goal fuel ((next x).reverse ++ stack) (x :: visited)

def unexplored (next : α → List α) (keys visited : List α) : Nat := ((keys.filter (· ∉ visited)).map (fun x => (next x).length)).sum

variable {keys : List α} {fuel : Nat} {r : α → α → Prop}

lemma unexplored_visit (distinct : keys.Nodup) (outside : ∀ x,x ∉ keys → next x = []) (fresh : x ∉ visited) :
    unexplored next keys (x :: visited) + (next x).length = unexplored next keys visited := by
  by_cases known : x ∈ keys
  · obtain ⟨front,back,rfl⟩ := append_of_mem known
    have apart := perm_middle.nodup_iff.mp distinct
    obtain ⟨absent,_⟩ := nodup_cons.mp apart
    rw [mem_append,not_or] at absent
    have same : ∀ part : List α,x ∉ part → part.filter (· ∉ x :: visited) = part.filter (· ∉ visited) := by
      intro part missing
      apply filter_congr
      intro y member
      have other : y ≠ x := fun equal => missing (equal ▸ member)
      simp [other]
    have gone : (x :: back).filter (· ∉ x :: visited) = back.filter (· ∉ visited) := by
      rw [filter_cons_of_neg (by simp),same back absent.2]
    have counted : (x :: back).filter (· ∉ visited) = x :: back.filter (· ∉ visited) :=
      filter_cons_of_pos (by simpa using fresh)
    rw [unexplored,unexplored,filter_append,filter_append,same front absent.1,gone,counted]
    simp only [map_append,sum_append,map_cons,sum_cons]
    omega
  · have same : keys.filter (· ∉ x :: visited) = keys.filter (· ∉ visited) := by
      apply filter_congr
      intro y member
      have other : y ≠ x := fun equal => known (equal ▸ member)
      simp [other]
    rw [unexplored,same,outside x known]
    rfl

lemma search_ends (goal : α) (distinct : keys.Nodup) (outside : ∀ x,x ∉ keys → next x = []) (enough : stack.length + unexplored next keys visited < fuel) :
    ∃ found,search next goal fuel stack visited = some found := by
  induction fuel generalizing stack visited with
  | zero => exact absurd enough (Nat.not_lt_zero _)
  | succ fuel ih =>
    cases stack with
    | nil => exact ⟨false,rfl⟩
    | cons x stack =>
      rw [length_cons] at enough
      unfold search
      split_ifs with here seen
      · exact ⟨true,rfl⟩
      · exact ih (by omega)
      · apply ih
        have visit := unexplored_visit distinct outside seen
        rw [length_append,length_reverse]
        omega

lemma search_false (explored : Explored next goal stack visited)
    (ends : search next goal fuel stack visited = some false) :
    ∀ x,x ∈ stack ∨ x ∈ visited → ¬ ReflTransGen (fun a b => b ∈ next a) x goal := by
  induction fuel generalizing stack visited with
  | zero => cases ends
  | succ fuel ih =>
    cases stack with
    | nil =>
      rintro x (waiting | seen)
      · cases waiting
      · exact explored.unreachable seen
    | cons x stack =>
      have here : x ≠ goal := by
        intro equal
        simp [search,equal] at ends
      rw [search,if_neg here] at ends
      by_cases seen : x ∈ visited
      · rw [if_pos seen] at ends
        intro y known
        apply ih (explored.skip seen) ends
        rcases known with waiting | old
        · rcases mem_cons.mp waiting with rfl | behind
          · exact .inr seen
          · exact .inl behind
        · exact .inr old
      · rw [if_neg seen] at ends
        intro y known
        apply ih (explored.visit here) ends
        rcases known with waiting | old
        · rcases mem_cons.mp waiting with rfl | behind
          · exact .inr mem_cons_self
          · exact .inl (mem_append_right _ behind)
        · exact .inr (mem_cons_of_mem _ old)

lemma search_true (found : search next goal fuel stack visited = some true) :
    ∃ x ∈ stack,ReflTransGen (fun a b => b ∈ next a) x goal := by
  induction fuel generalizing stack visited with
  | zero => cases found
  | succ fuel ih =>
    cases stack with
    | nil => cases found
    | cons x stack =>
      unfold search at found
      split_ifs at found with here seen
      · exact ⟨x,mem_cons_self,here ▸ ReflTransGen.refl⟩
      · obtain ⟨y,behind,path⟩ := ih found
        exact ⟨y,mem_cons_of_mem _ behind,path⟩
      · obtain ⟨y,waiting,path⟩ := ih found
        rcases mem_append.mp waiting with edge | behind
        · exact ⟨x,mem_cons_self,ReflTransGen.head (mem_reverse.mp edge) path⟩
        · exact ⟨y,mem_cons_of_mem _ behind,path⟩

lemma search_iff (goal : α) (distinct : keys.Nodup) (outside : ∀ x,x ∉ keys → next x = []) (start : α) (enough : 1 + (keys.map (fun x => (next x).length)).sum < fuel) :
    search next goal fuel [start] [] = some true ↔ ReflTransGen (fun a b => b ∈ next a) start goal := by
  constructor
  · intro found
    obtain ⟨x,waiting,path⟩ := search_true found
    rw [mem_singleton.mp waiting] at path
    exact path
  · intro path
    have fuelled : [start].length + unexplored next keys [] < fuel := by simpa [unexplored] using enough
    obtain ⟨found,ends⟩ := search_ends goal distinct outside fuelled
    cases found with
    | true => exact ends
    | false =>
      have explored : Explored next goal [start] [] := ⟨by simp,by simp⟩
      exact absurd path (search_false explored ends start (.inl (mem_singleton.mpr rfl)))

section
omit [DecidableEq α]

lemma path_insert {src dst y : α} (path : TransGen (fun a b => r a b ∨ a = src ∧ b = dst) x y) :
    TransGen r x y ∨ ReflTransGen r x src ∧ ReflTransGen r dst y := by
  induction path with
  | single edge =>
    rcases edge with old | ⟨rfl,rfl⟩
    · exact .inl (TransGen.single old)
    · exact .inr ⟨ReflTransGen.refl,ReflTransGen.refl⟩
  | tail _ edge ih =>
    rcases edge with old | ⟨rfl,rfl⟩
    · rcases ih with direct | ⟨first,second⟩
      · exact .inl (direct.tail old)
      · exact .inr ⟨first,second.tail old⟩
    · rcases ih with direct | ⟨first,_⟩
      · exact .inr ⟨direct.to_reflTransGen,ReflTransGen.refl⟩
      · exact .inr ⟨first,ReflTransGen.refl⟩

lemma acyclic_insert {src dst : α} (acyclic : ∀ x,¬ TransGen r x x)
    (oneWay : ¬ ReflTransGen r dst src) (x : α) : ¬ TransGen (fun a b => r a b ∨ a = src ∧ b = dst) x x := by
  intro cycle
  rcases path_insert cycle with old | ⟨first,second⟩
  · exact acyclic x old
  · exact oneWay (second.trans first)

end

end Search
