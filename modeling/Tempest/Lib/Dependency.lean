import Mathlib.Data.List.Sort

/-! Names that depend on other names. A list is ordered if each of its members
comes after everything it depends on. -/
namespace Dependency
open List

variable {ι : Type} (deps : ι → List ι)

def Ordered (order : List ι) : Prop :=
  ∀ before i after, order = before ++ i :: after → ∀ j ∈ deps i, j ∈ before

variable {deps}

lemma Ordered.nil : Ordered deps [] := by
  intro before i after split
  simp at split

variable {order : List ι}

lemma Ordered.snoc (ordered : Ordered deps order) {i : ι}
    (known : ∀ j ∈ deps i,j ∈ order) : Ordered deps (order ++ [i]) := by
  intro before k after split
  rcases eq_nil_or_concat after with rfl | ⟨rest,last,rfl⟩
  · obtain ⟨same,equal⟩ := append_inj' split rfl
    simp only [List.cons.injEq,and_true] at equal
    subst equal
    subst same
    exact known
  · have shorter : order ++ [i] = (before ++ k :: rest) ++ [last] := by simpa using split
    obtain ⟨same,_⟩ := append_inj' shorter rfl
    exact ordered before k rest same

lemma Ordered.congr {deps' : ι → List ι} (same : ∀ i ∈ order,∀ j,j ∈ deps i ↔ j ∈ deps' i) :
    Ordered deps order ↔ Ordered deps' order := by
  have inside : ∀ before i after,order = before ++ i :: after → i ∈ order := by
    rintro before i after rfl
    exact mem_append_right _ mem_cons_self
  constructor
  · intro ordered before i after split j depends
    exact ordered before i after split j ((same i (inside before i after split) j).mpr depends)
  · intro ordered before i after split j depends
    exact ordered before i after split j ((same i (inside before i after split) j).mp depends)

lemma Ordered.append (ordered : Ordered deps order) (more : List ι)
    (known : ∀ i ∈ more,∀ j ∈ deps i,j ∈ order) : Ordered deps (order ++ more) := by
  induction more generalizing order with
  | nil => rw [append_nil]; exact ordered
  | cons i rest ih =>
    rw [append_cons]
    refine ih (ordered.snoc (known i (by simp))) ?_
    intro k member j depends
    exact mem_append_left _ (known k (mem_cons_of_mem _ member) j depends)

lemma ordered_of_rank (names : List ι) (rank : ι → Nat)
    (smaller : ∀ i ∈ names,∀ j ∈ deps i,j ∈ names ∧ rank j < rank i) :
    ∃ order,Ordered deps order ∧ order.Perm names := by
  let sorted := names.insertionSort (fun i j => rank i ≤ rank j)
  have members : ∀ i,i ∈ sorted ↔ i ∈ names := fun i => mem_insertionSort _
  refine ⟨sorted,?_,perm_insertionSort _ _⟩
  intro before i after split j depends
  have rising : sorted.Pairwise (fun i j => rank i ≤ rank j) := pairwise_insertionSort _ _
  obtain ⟨known,below⟩ := smaller i ((members i).mp (by rw [split]; simp)) j depends
  have inside := (members j).mpr known
  rw [split] at rising inside
  rcases mem_append.mp inside with earlier | later
  · exact earlier
  · have above : rank i ≤ rank j := by
      rcases mem_cons.mp later with rfl | behind
      · exact le_rfl
      · exact rel_of_pairwise_cons (pairwise_append.mp rising).2.1 behind
    omega

lemma Ordered.rank [DecidableEq ι] (ordered : Ordered deps order) (i : ι) (member : i ∈ order)
    (j : ι) (depends : j ∈ deps i) : j ∈ order ∧ order.idxOf j < order.idxOf i := by
  obtain ⟨before,after,split,first⟩ := eq_append_cons_of_mem member
  have earlier := ordered before i after split j depends
  rw [split]
  refine ⟨mem_append_left _ earlier,?_⟩
  rw [idxOf_append_of_mem earlier,idxOf_append_of_notMem first]
  exact Nat.lt_of_lt_of_le (idxOf_lt_length_of_mem earlier) (Nat.le_add_right _ _)

lemma Ordered.first_lacking (ordered : Ordered deps order) (P : ι → Prop)
    (lacking : ∃ i ∈ order,¬ P i) : ∃ i ∈ order,¬ P i ∧ ∀ j ∈ deps i,P j := by
  classical
  obtain ⟨i,found⟩ : ∃ i,order.find? (fun i => ¬ P i) = some i := by
    cases search : order.find? (fun i => ¬ P i) with
    | some i => exact ⟨i,rfl⟩
    | none =>
      obtain ⟨i,member,lacks⟩ := lacking
      have holds := find?_eq_none.mp search i member
      simp [lacks] at holds
  obtain ⟨lacks,before,after,split,earlier⟩ := find?_eq_some_iff_append.mp found
  refine ⟨i,mem_of_find?_eq_some found,by simpa using lacks,?_⟩
  intro j depends
  simpa using earlier j (ordered before i after split j depends)

end Dependency
