import Mathlib.Data.List.Basic
import Mathlib.Data.List.Count
import Mathlib.Data.Nat.Basic
import Mathlib.Order.Basic

/-! Slices over arrays in memory. A slice starts at the front of its array; `append`
writes into the array as long as the capacity lasts and moves to a new array
otherwise. Several slices can have one array: what is written through one of them
is read through the others. -/
open List
namespace Slices
open Function

variable {α : Type}

structure Slice where
  ptr : Nat
  len : Nat
  cap : Nat
  deriving DecidableEq

def Slice.nil : Slice := ⟨0,0,0⟩

abbrev Memory (α : Type) := List (List α)

def array (mem : Memory α) (ptr : Nat) : List α := (mem[ptr]?).getD []

def contents (mem : Memory α) (s : Slice) : List α := (array mem s.ptr).take s.len

def write (mem : Memory α) (ptr start : Nat) (xs : List α) : Memory α :=
  mem.modify ptr (fun cells => cells.take start ++ xs ++ cells.drop (start + xs.length))

def append [Inhabited α] (spare : Nat) (mem : Memory α) (s : Slice) (xs : List α) : Memory α × Slice :=
  let len := s.len + xs.length
  if len ≤ s.cap then (write mem s.ptr s.len xs,{ s with len })
  else (mem ++ [contents mem s ++ xs ++ List.replicate spare default],⟨mem.length,len,len + spare⟩)

def removeAt [Inhabited α] (spare : Nat) (mem : Memory α) (s : Slice) (i : Nat) : Memory α × Slice :=
  append spare mem { s with len := i } ((contents mem s).drop (i + 1))

variable {len ptr start : Nat} {s : Slice}

lemma contents_shorten (mem : Memory α) (s : Slice) (shorter : len ≤ s.len) :
    contents mem { s with len } = (contents mem s).take len := by
  simp only [contents]
  rw [take_take,Nat.min_eq_left shorter]

lemma array_write {mem : Memory α} {xs : List α}
    (inside : start + xs.length ≤ (array mem ptr).length) (q : Nat) : array (write mem ptr start xs) q =
      if q = ptr then (array mem ptr).take start ++ xs ++ (array mem ptr).drop (start + xs.length) else array mem q := by
  unfold array at inside ⊢
  rw [write,getElem?_modify]
  split_ifs with same other
  · subst same
    cases found : mem[ptr]? with
    | some cells => simp
    | none =>
      rw [found,Option.getD_none,length_nil] at inside
      have none_ : xs = [] := length_eq_zero_iff.mp (by omega)
      simp [none_]
  · exact absurd same.symm other
  · exact absurd (by assumption : q = ptr).symm same
  · cases mem[q]? <;> rfl

lemma array_write_length {mem : Memory α} {xs : List α}
    (inside : start + xs.length ≤ (array mem ptr).length) (q : Nat) :
    (array (write mem ptr start xs) q).length = (array mem q).length := by
  rw [array_write inside]
  split_ifs with same
  · subst same
    simp only [length_append,length_take,length_drop]
    omega
  · rfl

lemma array_alloc (mem : Memory α) (cells : List α) (q : Nat) :
    array (mem ++ [cells]) q = if q = mem.length then cells else array mem q := by
  unfold array
  rcases Nat.lt_trichotomy q mem.length with old | rfl | beyond
  · rw [getElem?_append_left old,if_neg old.ne]
  · simp
  · have outside : (mem ++ [cells])[q]? = none := getElem?_eq_none (by simp; omega)
    have outside' : mem[q]? = none := getElem?_eq_none (by omega)
    rw [outside,outside',if_neg beyond.ne']

structure Valid (mem : Memory α) (s : Slice) : Prop where
  fits : s.len ≤ s.cap
  backed : s.cap ≤ (array mem s.ptr).length

lemma Valid.length {mem : Memory α} (valid : Valid mem s) : (contents mem s).length = s.len := by
  rw [contents,length_take]
  exact Nat.min_eq_left (valid.fits.trans valid.backed)

lemma Valid.allocated {mem : Memory α} (valid : Valid mem s) (capable : 0 < s.cap) : s.ptr < mem.length := by
  by_contra outside
  have none_ : array mem s.ptr = [] := by
    rw [array,getElem?_eq_none (not_lt.mp outside)]
    rfl
  have backed := valid.backed
  rw [none_,length_nil] at backed
  omega

lemma valid_nil (mem : Memory α) : Valid mem .nil := ⟨le_rfl,Nat.zero_le _⟩

/-- Slices of which no two have an array in common. -/
structure Separated {ι : Type} (mem : Memory α) (slices : ι → Slice) : Prop where
  valid : ∀ i, Valid mem (slices i)
  apart : ∀ i j, i ≠ j → 0 < (slices i).cap → 0 < (slices j).cap → (slices i).ptr ≠ (slices j).ptr

namespace Separated

variable {ι : Type} [DecidableEq ι] {mem : Memory α} {slices : ι → Slice} (separated : Separated mem slices) (i : ι)

include separated

lemma drop : Separated mem (update slices i .nil) := by
  constructor
  · intro j
    by_cases same : j = i
    · rw [same,update_self]
      exact valid_nil mem
    · rw [update_of_ne same]
      exact separated.valid j
  · intro j k different first second
    by_cases left : j = i
    · rw [left,update_self] at first
      cases first
    · by_cases right : k = i
      · rw [right,update_self] at second
        cases second
      · rw [update_of_ne left] at first ⊢
        rw [update_of_ne right] at second ⊢
        exact separated.apart j k different first second

lemma rewrite {xs : List α} (inside : start + xs.length ≤ (slices i).cap) (fits : len ≤ (slices i).cap) :
    Separated (write mem (slices i).ptr start xs) (update slices i { slices i with len }) := by
  have room := inside.trans (separated.valid i).backed
  constructor
  · intro j
    by_cases same : j = i
    · subst same
      rw [update_self]
      refine ⟨fits,?_⟩
      rw [array_write_length room]
      exact (separated.valid j).backed
    · rw [update_of_ne same]
      refine ⟨(separated.valid j).fits,?_⟩
      rw [array_write_length room]
      exact (separated.valid j).backed
  · have caps : ∀ j,(update slices i { slices i with len } j).cap = (slices j).cap := by
      intro j
      by_cases same : j = i
      · rw [same,update_self]
      · rw [update_of_ne same]
    have ptrs : ∀ j,(update slices i { slices i with len } j).ptr = (slices j).ptr := by
      intro j
      by_cases same : j = i
      · rw [same,update_self]
      · rw [update_of_ne same]
    intro j k different first second
    rw [caps] at first second
    rw [ptrs,ptrs]
    exact separated.apart j k different first second

variable {j : ι} {h : Slice}

omit [DecidableEq ι] in
lemma rewrite_other {xs : List α} (inside : start + xs.length ≤ (slices i).cap) (other : j ≠ i) (ptr : h.ptr = (slices j).ptr) (short : h.len ≤ (slices j).cap) :
    contents (write mem (slices i).ptr start xs) h = contents mem h := by
  have room := inside.trans (separated.valid i).backed
  rcases Nat.eq_zero_or_pos h.len with empty | some_
  · simp [contents,empty]
  · rcases Nat.eq_zero_or_pos (slices i).cap with nothing | capable
    · have none_ : xs = [] := length_eq_zero_iff.mp (by omega)
      subst none_
      rw [contents,array_write room]
      split_ifs with same
      · simp [contents,same]
      · rfl
    · have apart := separated.apart j i other (some_.trans_le short) capable
      rw [contents,array_write room,ptr,if_neg apart,contents,ptr]

section Append

variable [Inhabited α] (spare : Nat) (xs : List α)

lemma append_separated :
    Separated (append spare mem (slices i) xs).1 (update slices i (append spare mem (slices i) xs).2) := by
  unfold append
  dsimp only
  split_ifs with room
  · exact separated.rewrite i room room
  · have old :=
      fun j capable => ((separated.valid j).allocated capable).ne
    constructor
    · intro j
      by_cases same : j = i
      · subst same
        rw [update_self]
        refine ⟨Nat.le_add_right _ _,?_⟩
        rw [array_alloc,if_pos rfl]
        simp only [length_append,(separated.valid j).length,length_replicate,le_refl]
      · rw [update_of_ne same]
        refine ⟨(separated.valid j).fits,?_⟩
        rcases Nat.eq_zero_or_pos (slices j).cap with nothing | capable
        · rw [nothing]
          exact Nat.zero_le _
        · rw [array_alloc,if_neg (old j capable)]
          exact (separated.valid j).backed
    · intro j k different first second
      by_cases left : j = i
      · rw [left] at different ⊢
        rw [update_of_ne different.symm] at second ⊢
        rw [update_self]
        exact (old k second).symm
      · rw [update_of_ne left] at first ⊢
        by_cases right : k = i
        · rw [right,update_self]
          exact old j first
        · rw [update_of_ne right] at second ⊢
          exact separated.apart j k different first second

section
omit [DecidableEq ι]

lemma append_contents :
    contents (append spare mem (slices i) xs).1 (append spare mem (slices i) xs).2 = contents mem (slices i) ++ xs := by
  have valid := separated.valid i
  unfold append
  dsimp only
  split_ifs with room
  · have inside := room.trans valid.backed
    have front : ((array mem (slices i).ptr).take (slices i).len).length = (slices i).len := valid.length
    rw [contents,array_write inside,if_pos rfl,take_append_of_le_length]
    · rw [take_of_length_le]
      · rfl
      · rw [length_append,front]
    · rw [length_append,front]
  · rw [contents,array_alloc,if_pos rfl,take_append_of_le_length]
    · rw [take_of_length_le]
      rw [length_append,valid.length]
    · rw [length_append,valid.length]

lemma append_other (other : j ≠ i) :
    contents (append spare mem (slices i) xs).1 (slices j) = contents mem (slices j) := by
  unfold append
  dsimp only
  split_ifs with room
  · exact separated.rewrite_other i room other rfl (separated.valid j).fits
  · rcases Nat.eq_zero_or_pos (slices j).cap with nothing | capable
    · have empty := Nat.le_zero.mp (nothing ▸ (separated.valid j).fits)
      simp [contents,empty]
    · rw [contents,array_alloc,if_neg ((separated.valid j).allocated capable).ne]
      rfl

end

end Append

section Remove

variable [Inhabited α] (spare : Nat) {k : Nat} (inside : k < (slices i).len)

include inside

omit [DecidableEq ι] in
lemma removeAt_eq : removeAt spare mem (slices i) k =
      (write mem (slices i).ptr k ((contents mem (slices i)).drop (k + 1)),{ slices i with len := (slices i).len - 1 }) := by
  have fits := (separated.valid i).fits
  have length : k + ((contents mem (slices i)).drop (k + 1)).length = (slices i).len - 1 := by
    rw [length_drop,(separated.valid i).length]
    omega
  unfold removeAt append
  dsimp only
  rw [length,if_pos (by omega)]

omit [DecidableEq ι] [Inhabited α] in
lemma removeAt_room : k + ((contents mem (slices i)).drop (k + 1)).length ≤ (slices i).cap := by
  have fits := (separated.valid i).fits
  rw [length_drop,(separated.valid i).length]
  omega

lemma removeAt_separated :
    Separated (removeAt spare mem (slices i) k).1 (update slices i (removeAt spare mem (slices i) k).2) := by
  rw [separated.removeAt_eq i spare inside]
  apply separated.rewrite i (separated.removeAt_room i inside)
  have fits := (separated.valid i).fits
  omega

section
omit [DecidableEq ι]

lemma removeAt_other (other : j ≠ i) (ptr : h.ptr = (slices j).ptr) (short : h.len ≤ (slices j).cap) :
    contents (removeAt spare mem (slices i) k).1 h = contents mem h := by
  rw [separated.removeAt_eq i spare inside]
  exact separated.rewrite_other i (separated.removeAt_room i inside) other ptr short

lemma removeAt_shared (ptr : h.ptr = (slices i).ptr) {stale : List α}
    (reads : contents mem h = contents mem (slices i) ++ stale) : contents (removeAt spare mem (slices i) k).1 h =
      (contents mem (slices i)).eraseIdx k ++ ((contents mem (slices i)).drop ((slices i).len - 1) ++ stale) := by
  have length := (separated.valid i).length
  have room := (separated.removeAt_room i inside).trans (separated.valid i).backed
  have moved : k + ((contents mem (slices i)).drop (k + 1)).length = (slices i).len - 1 := by
    rw [length_drop]
    omega
  have front : (array mem (slices i).ptr).take k ++ (contents mem (slices i)).drop (k + 1) =
      (contents mem (slices i)).eraseIdx k := by
    rw [eraseIdx_eq_take_drop_succ,contents,take_take,Nat.min_eq_left (le_of_lt inside)]
  have shorter : ((contents mem (slices i)).eraseIdx k).length = (slices i).len - 1 := by
    rw [length_eraseIdx_of_lt (by omega),length]
  have enough : (slices i).len ≤ h.len := by
    have both := congrArg List.length reads
    rw [contents,length_append,length_take] at both
    omega
  have back : ((array mem (slices i).ptr).drop ((slices i).len - 1)).take (h.len - ((slices i).len - 1)) =
      (contents mem (slices i)).drop ((slices i).len - 1) ++ stale := by
    rw [← drop_take,← ptr]
    change (contents mem h).drop _ = _
    rw [reads,drop_append_of_le_length (by omega)]
  rw [separated.removeAt_eq i spare inside,contents,ptr,array_write room,if_pos rfl,front,moved,take_append,shorter,back,
    take_of_length_le (by omega)]

lemma removeAt_contents : contents (removeAt spare mem (slices i) k).1 (removeAt spare mem (slices i) k).2 =
      (contents mem (slices i)).eraseIdx k := by
  have length := (separated.valid i).length
  have shared := separated.removeAt_shared i spare inside rfl (append_nil _).symm
  have shorter : ((contents mem (slices i)).eraseIdx k).length = (slices i).len - 1 := by
    rw [length_eraseIdx_of_lt (by omega),length]
  rw [separated.removeAt_eq i spare inside] at shared ⊢
  rw [contents_shorten _ _ (Nat.sub_le _ _),shared,take_append_of_le_length (by omega),
    take_of_length_le (by omega)]

end

end Remove

end Separated

end Slices
