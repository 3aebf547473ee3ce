import Mathlib.Data.List.Pairwise
import Mathlib.Data.List.Sort
import Mathlib.Data.List.Perm.Basic

/-! Pages of sorted lists. The elements of one list are put in falling order of a rank
anew for each page, and elements of equal rank come in any order. -/
namespace Paging
open List

variable {α β : Type} [LinearOrder β] (rank : α → β)

def Falling (ys : List α) : Prop := ys.Pairwise (fun a b => rank b ≤ rank a)

def above (xs : List α) (x : α) : Nat := xs.countP (fun y => rank x < rank y)

def level (xs : List α) (x : α) : Nat := xs.countP (fun y => rank y = rank x)

def slice (ys : List α) (size i : Nat) : List α := (ys.drop (i * size)).take size

variable {rank} {xs ys : List α} {x : α} {j size : Nat}

lemma above_perm (perm : ys.Perm xs) (x : α) : above rank ys x = above rank xs x := perm.countP_eq _

lemma level_perm (perm : ys.Perm xs) (x : α) : level rank ys x = level rank xs x := perm.countP_eq _

lemma Falling.index (falling : Falling rank ys) (here : ys[j]? = some x) :
    above rank ys x ≤ j ∧ j < above rank ys x + level rank ys x := by
  induction ys generalizing j with
  | nil => simp at here
  | cons y rest ih =>
    obtain ⟨below,later⟩ := pairwise_cons.mp falling
    cases j with
    | zero =>
      have first : y = x := by simpa using here
      subst first
      have none : above rank (y :: rest) y = 0 := by
        unfold above
        rw [countP_eq_zero]
        intro z member
        rcases mem_cons.mp member with rfl | inside
        · simp
        · simpa using below z inside
      have itself : 0 < level rank (y :: rest) y := countP_pos_iff.mpr ⟨y,by simp,by simp⟩
      omega
    | succ j =>
      have there : rest[j]? = some x := by simpa using here
      obtain ⟨lower,upper⟩ := ih later there
      have under := below x (mem_of_getElem? there)
      -- The head counts once: it is either higher or of the same rank.
      rcases under.lt_or_eq with less | equal
      · have counts : above rank (y :: rest) x = above rank rest x + 1 := by simp [above,less]
        have others : level rank (y :: rest) x = level rank rest x := by simp [level,less.ne']
        omega
      · have counts : above rank (y :: rest) x = above rank rest x := by simp [above,equal]
        have others : level rank (y :: rest) x = level rank rest x + 1 := by simp [level,equal]
        omega

lemma mem_slice (positive : 0 < size) (i : Nat) (x : α) :
    x ∈ slice ys size i ↔ ∃ j,ys[j]? = some x ∧ j / size = i := by
  unfold slice
  rw [mem_iff_getElem?]
  constructor
  · rintro ⟨j,here⟩
    rw [getElem?_take] at here
    split_ifs at here with inside
    rw [getElem?_drop] at here
    refine ⟨i * size + j,here,?_⟩
    rw [Nat.mul_comm,Nat.mul_add_div positive,Nat.div_eq_of_lt inside,Nat.add_zero]
  · rintro ⟨j,here,rfl⟩
    refine ⟨j % size,?_⟩
    rw [getElem?_take,if_pos (Nat.mod_lt j positive),getElem?_drop,Nat.mul_comm,Nat.div_add_mod]
    exact here

lemma classes_perm (nodup : xs.Nodup) (number : α → Nat) {n : Nat} (bounded : ∀ x ∈ xs,number x < n) :
    ((List.range n).flatMap (fun i => xs.filter (fun x => number x = i))).Perm xs := by
  have apart : ((List.range n).flatMap (fun i => xs.filter (fun x => number x = i))).Nodup := by
    rw [nodup_flatMap]
    refine ⟨fun i _ => nodup.filter _,?_⟩
    apply nodup_range.imp
    intro i j different x first second
    simp only [mem_filter,decide_eq_true_eq] at first second
    exact different (first.2.symm.trans second.2)
  rw [perm_ext_iff_of_nodup apart nodup]
  intro x
  simp only [mem_flatMap,mem_range,mem_filter,decide_eq_true_eq]
  constructor
  · rintro ⟨i,_,member,_⟩
    exact member
  · intro member
    exact ⟨number x,bounded x member,member,rfl⟩

def Unsplit (rank : α → β) (xs : List α) (size : Nat) : Prop :=
  ∀ x ∈ xs, above rank xs x / size = (above rank xs x + level rank xs x - 1) / size

lemma Unsplit.slice_perm (unsplit : Unsplit rank xs size) (positive : 0 < size)
    (nodup : xs.Nodup) (falling : Falling rank ys) (perm : ys.Perm xs) (i : Nat) :
    (slice ys size i).Perm (xs.filter (fun x => above rank xs x / size = i)) := by
  have apart : (slice ys size i).Nodup :=
    (perm.nodup_iff.mpr nodup).sublist ((take_sublist _ _).trans (drop_sublist _ _))
  have page : ∀ x j,ys[j]? = some x → j / size = above rank xs x / size := by
    intro x j here
    obtain ⟨lower,upper⟩ := falling.index here
    rw [above_perm perm] at lower upper
    rw [level_perm perm] at upper
    have same := unsplit x (perm.mem_iff.mp (mem_of_getElem? here))
    have first : above rank xs x / size ≤ j / size := Nat.div_le_div_right lower
    have last : j / size ≤ (above rank xs x + level rank xs x - 1) / size := Nat.div_le_div_right (by omega)
    omega
  rw [perm_ext_iff_of_nodup apart (nodup.filter _)]
  intro x
  simp only [mem_slice positive,mem_filter,decide_eq_true_eq]
  constructor
  · rintro ⟨j,here,rfl⟩
    exact ⟨perm.mem_iff.mp (mem_of_getElem? here),(page x j here).symm⟩
  · rintro ⟨member,rfl⟩
    obtain ⟨j,here⟩ := mem_iff_getElem?.mp (perm.mem_iff.mpr member)
    exact ⟨j,here,page x j here⟩

lemma ranks_perm (xs : List α) (v : β) :
    (xs.filter (fun y => v < rank y) ++ (xs.filter (fun y => rank y = v) ++ xs.filter (fun y => rank y < v))).Perm xs := by
  have lower : (xs.filter (fun y => rank y = v) ++ xs.filter (fun y => rank y < v)).Perm
      (xs.filter (fun y => !decide (v < rank y))) := by
    have parts := filter_append_perm (fun y => decide (rank y = v)) (xs.filter (fun y => !decide (v < rank y)))
    rw [filter_filter,filter_filter] at parts
    convert parts using 2
    · apply filter_congr
      intro y _
      by_cases tied : rank y = v <;> simp [tied]
    · apply filter_congr
      intro y _
      rcases lt_trichotomy (rank y) v with less | tied | more
      · simp [less,less.ne,less.le]
      · simp [tied]
      · simp [more,more.ne',more.le]
  exact (lower.append_left _).trans (filter_append_perm (fun y => decide (v < rank y)) xs)

lemma Falling.join {higher equal lesser : List α} {v : β} (first : Falling rank higher) (last : Falling rank lesser)
    (highers : ∀ y ∈ higher,v < rank y) (equals : ∀ y ∈ equal,rank y = v) (lessers : ∀ y ∈ lesser,rank y < v) :
    Falling rank (higher ++ (equal ++ lesser)) := by
  unfold Falling
  rw [pairwise_append,pairwise_append]
  refine ⟨first,⟨?_,last,?_⟩,?_⟩
  · apply pairwise_of_forall_mem_list
    intro a left b right
    rw [equals a left,equals b right]
  · intro a left b right
    rw [equals a left]
    exact (lessers b right).le
  · intro a left b right
    rcases mem_append.mp right with tied | behind
    · rw [equals b tied]
      exact (highers a left).le
    · exact ((lessers b behind).trans (highers a left)).le

lemma exists_placed (member : x ∈ xs) (inside : j < xs.length) :
    ∃ ys : List α,ys.Perm xs ∧ ys[j]? = some x := by
  obtain ⟨front,back,rfl⟩ := append_of_mem member
  refine ⟨(front ++ back).take j ++ x :: (front ++ back).drop j,?_,?_⟩
  · refine perm_middle.trans ?_
    rw [take_append_drop]
    exact perm_middle.symm
  · have room : j ≤ (front ++ back).length := by
      simp only [length_append,length_cons] at inside ⊢
      omega
    rw [getElem?_append_right (by simp),length_take,Nat.min_eq_left room,Nat.sub_self]
    rfl

lemma exists_arrangement (rank : α → β) (member : x ∈ xs) {p : Nat} (lower : above rank xs x ≤ p)
    (upper : p < above rank xs x + level rank xs x) : ∃ ys,Falling rank ys ∧ ys.Perm xs ∧ ys[p]? = some x := by
  let higher := (xs.filter (fun y => rank x < rank y)).insertionSort (fun a b => rank b ≤ rank a)
  let lesser := (xs.filter (fun y => rank y < rank x)).insertionSort (fun a b => rank b ≤ rank a)
  have aboves : higher.length = above rank xs x := by
    rw [length_insertionSort,above,countP_eq_length_filter]
  have levels : (xs.filter (fun y => rank y = rank x)).length = level rank xs x := countP_eq_length_filter.symm
  have tied : x ∈ xs.filter (fun y => rank y = rank x) := mem_filter.mpr ⟨member,by simp⟩
  obtain ⟨equal,arranged,there⟩ := exists_placed tied (j := p - above rank xs x) (by omega)
  refine ⟨higher ++ (equal ++ lesser),?_,?_,?_⟩
  · apply Falling.join (v := rank x)
    · exact pairwise_insertionSort _ _
    · exact pairwise_insertionSort _ _
    · intro y inside
      simpa using (mem_filter.mp ((mem_insertionSort _).mp inside)).2
    · intro y inside
      simpa using (mem_filter.mp (arranged.mem_iff.mp inside)).2
    · intro y inside
      simpa using (mem_filter.mp ((mem_insertionSort _).mp inside)).2
  · have sorted : lesser.Perm (xs.filter (fun y => rank y < rank x)) := perm_insertionSort _ _
    exact ((perm_insertionSort _ _).append (arranged.append sorted)).trans (ranks_perm xs (rank x))
  · have short : p - above rank xs x < equal.length := by
      rw [arranged.length_eq]
      omega
    rw [getElem?_append_right (by omega),aboves,getElem?_append_left short]
    exact there

lemma twice_not_nodup (pages : Nat → List α) {n i : Nat} (first : i < n) (second : j < n) (different : i ≠ j) (here : x ∈ pages i) (there : x ∈ pages j) : ¬ ((List.range n).flatMap pages).Nodup := by
  rw [nodup_flatMap]
  rintro ⟨_,apart⟩
  have symmetric : Std.Symm (Function.onFun List.Disjoint pages) := ⟨fun _ _ disjoint _ left right => disjoint right left⟩
  exact apart.forall (mem_range.mpr first) (mem_range.mpr second) different here there

lemma split_twice (member : x ∈ xs) (positive : 0 < size)
    (split : above rank xs x / size < (above rank xs x + level rank xs x - 1) / size) :
    ∃ i one two,(Falling rank one ∧ one.Perm xs ∧ x ∈ slice one size i) ∧
      (Falling rank two ∧ two.Perm xs ∧ x ∈ slice two size (i + 1)) := by
  let i := above rank xs x / size
  -- The last place of the page and the first one of the next.
  have before : above rank xs x < (i + 1) * size := (Nat.div_lt_iff_lt_mul positive).mp (Nat.lt_succ_self i)
  have after : (i + 1) * size ≤ above rank xs x + level rank xs x - 1 := (Nat.le_div_iff_mul_le positive).mp split
  obtain ⟨one,falls,perm,there⟩ := exists_arrangement rank member (p := (i + 1) * size - 1) (by omega) (by omega)
  obtain ⟨two,falls',perm',there'⟩ := exists_arrangement rank member (p := (i + 1) * size) (by omega) (by omega)
  refine ⟨i,one,two,⟨falls,perm,(mem_slice positive i x).mpr ⟨_,there,?_⟩⟩,
    ⟨falls',perm',(mem_slice positive (i + 1) x).mpr ⟨_,there',Nat.mul_div_cancel _ positive⟩⟩⟩
  apply Nat.div_eq_of_lt_le
  · rw [Nat.add_mul]
    omega
  · omega

lemma slices_perm_iff (nodup : xs.Nodup) (positive : 0 < size) :
    (∀ ys : Nat → List α,(∀ i,Falling rank (ys i) ∧ (ys i).Perm xs) → ∀ n,xs.length ≤ n * size →
      ((List.range n).flatMap (fun i => slice (ys i) size i)).Perm xs) ↔ Unsplit rank xs size := by
  constructor
  · intro tiles x member
    by_contra apart
    have le : above rank xs x / size ≤ (above rank xs x + level rank xs x - 1) / size := by
      have itself : 0 < level rank xs x := countP_pos_iff.mpr ⟨x,member,by simp⟩
      exact Nat.div_le_div_right (by omega)
    obtain ⟨i,one,two,⟨falls,perm,here⟩,falls',perm',there⟩ := split_twice member positive (lt_of_le_of_ne le apart)
    let ys := fun k => if k = i then one else two
    have sorted : ∀ k,Falling rank (ys k) ∧ (ys k).Perm xs := by
      intro k
      dsimp only [ys]
      split_ifs
      · exact ⟨falls,perm⟩
      · exact ⟨falls',perm'⟩
    have enough :=
      (by omega : xs.length ≤ xs.length + i + 2).trans (Nat.le_mul_of_pos_right _ positive)
    have once := (tiles ys sorted _ enough).nodup_iff.mpr nodup
    have here' : x ∈ slice (ys i) size i := by simpa [ys] using here
    have there' : x ∈ slice (ys (i + 1)) size (i + 1) := by simpa [ys] using there
    exact twice_not_nodup (fun k => slice (ys k) size k) (by omega) (by omega) (Nat.ne_add_one i) here' there' once
  · intro unsplit ys sorted n enough
    have bounded : ∀ x ∈ xs,above rank xs x / size < n := by
      intro x member
      obtain ⟨j,here⟩ := mem_iff_getElem?.mp ((sorted 0).2.mem_iff.mpr member)
      have lower := ((sorted 0).1.index here).1
      rw [above_perm (sorted 0).2] at lower
      have inside := (List.getElem?_eq_some_iff.mp here).1
      rw [(sorted 0).2.length_eq] at inside
      rw [Nat.div_lt_iff_lt_mul positive]
      omega
    have pages : ((List.range n).flatMap (fun i => slice (ys i) size i)).Perm
        ((List.range n).flatMap (fun i => xs.filter (fun x => above rank xs x / size = i))) := by
      apply List.Perm.flatMap_left
      intro i _
      exact unsplit.slice_perm positive nodup (sorted i).1 (sorted i).2 i
    exact pages.trans (classes_perm nodup _ bounded)

end Paging
