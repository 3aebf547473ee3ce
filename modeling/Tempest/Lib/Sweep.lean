import Mathlib.Data.List.Basic
import Mathlib.Data.List.Count
import Mathlib.Data.Nat.Basic
import Mathlib.Order.Basic

/-! A loop over a slice that removes each element it reads from the slice itself. The
elements behind a removed one move up in the array while the loop goes on to the
next place, so it reads every second element, and then the last one again and again
from behind the end of the slice. -/
namespace Sweep
open List

variable {α : Type} [DecidableEq α]

def step (k : Nat) (st : List α × List α) : List α × List α :=
  match (st.1 ++ st.2)[k]? with
  | none => st
  | some x => if x ∈ st.1 then (st.1.erase x,st.1.drop (st.1.length - 1) ++ st.2) else st

def run : Nat → Nat → List α × List α → List α × List α
  | 0, _, st => st
  | count + 1, k, st => run count (k + 1) (step k st)

def odds : List α → List α
  | _ :: y :: rest => y :: odds rest
  | [_] | [] => []

def Clears (xs : List α) : Prop := ∀ y ∈ odds xs, xs.getLast? = some y

instance (xs : List α) : Decidable (Clears xs) := List.decidableBAll _ _

def Uniform (z : α) (k : Nat) (st : List α × List α) : Prop :=
  st.1.length ≤ k ∧ ∀ p, k ≤ p → p < (st.1 ++ st.2).length → (st.1 ++ st.2)[p]? = some z

variable {z : α} {k : Nat} {st : List α × List α}

lemma Uniform.step (uniform : Uniform z k st) (inside : k < (st.1 ++ st.2).length) :
    Uniform z (k + 1) (step k st) ∧ (step k st).1 = st.1.erase z ∧
      ((step k st).1 ++ (step k st).2).length = (st.1 ++ st.2).length := by
  obtain ⟨elements,stale⟩ := st
  obtain ⟨short,same⟩ := uniform
  dsimp only at short same inside ⊢
  have reads := same k le_rfl inside
  by_cases member : z ∈ elements
  · have result : Sweep.step k (elements,stale) = (elements.erase z,elements.drop (elements.length - 1) ++ stale) := by
      simp only [Sweep.step,reads,if_pos member]
    have some_ := length_pos_of_mem member
    have shorter := length_erase_of_mem member
    have length : (elements.erase z ++ (elements.drop (elements.length - 1) ++ stale)).length = (elements ++ stale).length := by
      simp only [length_append,length_drop,shorter]
      omega
    rw [result]
    refine ⟨⟨?_,?_⟩,rfl,length⟩
    · dsimp only
      omega
    · intro p later within
      rw [length] at within
      rw [← same p (by omega) within]
      -- Behind the end of the slice nothing moves.
      rw [← append_assoc,getElem?_append_right (by simp only [length_append,length_drop,shorter]; omega),
        getElem?_append_right (by omega)]
      congr 1
      simp only [length_append,length_drop,shorter]
      omega
  · have result : Sweep.step k (elements,stale) = (elements,stale) := by
      simp only [Sweep.step,reads,if_neg member]
    rw [result,erase_of_not_mem member]
    exact ⟨⟨by dsimp only; omega,fun p later within => same p (by omega) within⟩,rfl,rfl⟩

lemma Uniform.run {count : Nat} (uniform : Uniform z k st) (rest : k + count = (st.1 ++ st.2).length) (y : α) :
    (run count k st).1.count y = if y = z then st.1.count z - count else st.1.count y := by
  induction count generalizing k st with
  | zero =>
    simp only [Sweep.run]
    split_ifs with same
    · rw [same,Nat.sub_zero]
    · rfl
  | succ count ih =>
    obtain ⟨later,erased,length⟩ := uniform.step (by omega)
    simp only [Sweep.run]
    rw [ih later (by omega),erased]
    split_ifs with same
    · rw [count_erase_self]
      omega
    · rw [count_erase_of_ne same]

lemma drain_count {elements : List α} (short : elements.length ≤ k) (z y : α) :
    (run elements.length k (elements,List.replicate k z)).1.count y = if y = z then 0 else elements.count y := by
  have length : (elements ++ List.replicate k z).length = elements.length + k := by
    rw [length_append,length_replicate]
  have uniform : Uniform z k (elements,List.replicate k z) := by
    refine ⟨short,?_⟩
    intro p later within
    dsimp only at within ⊢
    rw [getElem?_append_right (by omega),getElem?_replicate,if_pos (by omega)]
  have few : elements.count z - elements.length = 0 := Nat.sub_eq_zero_of_le count_le_length
  rw [uniform.run (by dsimp only; omega)]
  rw [few]

lemma erase_snoc_perm (front : List α) (x : α) : ((front ++ [x]).erase x).Perm front := by
  have moved := perm_append_singleton x front
  simpa using moved.erase x

lemma step_front (front : List α) (x : α) (rest : List α) (last : (x :: rest).getLast? = some z) :
    step front.length (front ++ x :: rest,List.replicate front.length z) =
      ((front ++ [x]).erase x ++ rest,List.replicate (front.length + 1) z) := by
  have reads : (front ++ x :: rest ++ List.replicate front.length z)[front.length]? = some x := by simp
  have member : x ∈ front ++ x :: rest := by simp
  have erased : (front ++ x :: rest).erase x = (front ++ [x]).erase x ++ rest := by
    have split : front ++ x :: rest = (front ++ [x]) ++ rest := by simp
    rw [split,erase_append_left _ (by simp)]
  have tail : (front ++ x :: rest).drop ((front ++ x :: rest).length - 1) = [z] := by
    obtain ⟨init,split⟩ := getLast?_eq_some_iff.mp last
    rw [split,← append_assoc,length_append,length_singleton,Nat.add_sub_cancel,drop_left]
  simp only [step,reads,if_pos member,erased,tail]
  rfl

lemma run_count (back front : List α) (last : ∀ x ∈ back.getLast?,x = z) (y : α) :
    (run (front.length + back.length) front.length (front ++ back,List.replicate front.length z)).1.count y =
      if y = z then 0 else (front ++ odds back).count y := by
  induction back using odds.induct generalizing front with
  | case1 x next rest ih =>
    obtain ⟨w,ends⟩ : ∃ w,(x :: next :: rest).getLast? = some w := ⟨_,getLast?_eq_some_getLast (by simp)⟩
    have same := last w ends
    subst same
    let passed := (front ++ [x]).erase x ++ [next]
    have length : passed.length = front.length + 1 := by
      rw [length_append,(erase_snoc_perm front x).length_eq]
      rfl
    have joined : (front ++ [x]).erase x ++ next :: rest = passed ++ rest := by simp [passed]
    have fewer : front.length + (x :: next :: rest).length = passed.length + rest.length + 1 := by
      rw [length_cons,length_cons]
      omega
    have later : ∀ v ∈ rest.getLast?,v = w := by
      intro v final
      apply last
      rw [getLast?_cons_cons,getLast?_cons]
      simp [Option.mem_def.mp final]
    rw [fewer,run,step_front front x (next :: rest) ends,joined,← length,ih passed later]
    have perm : (passed ++ odds rest).Perm (front ++ odds (x :: next :: rest)) := by
      have moved := (erase_snoc_perm front x).append_right (next :: odds rest)
      simpa [passed,odds] using moved
    rw [perm.count_eq]
  | case2 x =>
    have same := last x rfl
    subst same
    have length := (erase_snoc_perm front x).length_eq
    have ends : [x].getLast? = some x := rfl
    rw [length_singleton,run,step_front front x [] ends,append_nil]
    nth_rewrite 1 [← length]
    rw [drain_count (by omega),(erase_snoc_perm front x).count_eq,odds,append_nil]
  | case3 =>
    rw [append_nil,length_nil,Nat.add_zero,drain_count le_rfl,odds,append_nil]

lemma run_clears (xs : List α) : (run xs.length 0 (xs,[])).1 = [] ↔ Clears xs := by
  cases last : xs.getLast? with
  | none =>
    rw [getLast?_eq_none_iff] at last
    subst last
    exact iff_of_true rfl (by intro y member; cases member)
  | some z =>
    have ends : ∀ x ∈ xs.getLast?,x = z := by
      intro x final
      rw [last] at final
      exact (Option.some.inj final).symm
    have counts := run_count xs [] ends
    simp only [length_nil,Nat.zero_add,nil_append,replicate_zero] at counts
    constructor
    · intro cleared y member
      have none_ := counts y
      rw [cleared] at none_
      split_ifs at none_ with same
      · rw [last,same]
      · exact absurd none_.symm (count_pos_iff.mpr member).ne'
    · intro uniform
      apply eq_nil_iff_forall_not_mem.mpr
      intro y member
      have some_ := count_pos_iff.mpr member
      rw [counts y] at some_
      split_ifs at some_ with same
      · exact absurd some_ (lt_irrefl 0)
      · have equal := uniform y (count_pos_iff.mp some_)
        rw [last] at equal
        exact same (Option.some.inj equal).symm

end Sweep
