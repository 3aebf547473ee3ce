import Mathlib.Data.List.Sort

/-! Maps as lists of keys with their values, in the order of the keys. Two of them are
equal as soon as they have the same value for each key. -/
namespace Association
open List

variable {κ α : Type} [LinearOrder κ]

def keys (m : List (κ × α)) : List κ := m.map Prod.fst

def find (k : κ) : List (κ × α) → Option α
  | [] => none
  | (x,v) :: rest => if x = k then some v else find k rest

def put (k : κ) (v : α) : List (κ × α) → List (κ × α)
  | [] => [(k,v)]
  | (x,u) :: rest =>
    if k < x then (k,v) :: (x,u) :: rest
    else if x = k then (k,v) :: rest
    else (x,u) :: put k v rest

def erase (k : κ) (m : List (κ × α)) : List (κ × α) := m.filter (fun entry => entry.1 ≠ k)

def Sorted (m : List (κ × α)) : Prop := m.Pairwise (fun a b => a.1 < b.1)

variable {k k' : κ} {v w : α} {m n : List (κ × α)}

lemma find_cons (x : κ) : find k ((x,v) :: m) = if x = k then some v else find k m := rfl

lemma find_eq_none : find k m = none ↔ k ∉ keys m := by
  induction m with
  | nil => simp [find,keys]
  | cons entry rest ih =>
    rw [find_cons,keys,map_cons]
    split_ifs with same
    · simp [same]
    · rw [ih]
      simp [keys,Ne.symm same]

lemma mem_of_find (found : find k m = some v) : (k,v) ∈ m := by
  induction m with
  | nil => cases found
  | cons entry rest ih =>
    rw [find_cons] at found
    split_ifs at found with same
    · cases found
      subst same
      exact mem_cons_self
    · exact mem_cons_of_mem _ (ih found)

lemma find_put : find k' (put k v m) = if k' = k then some v else find k' m := by
  induction m with
  | nil => grind [put,find]
  | cons entry rest ih =>
    obtain ⟨x,u⟩ := entry
    rw [put]
    split_ifs <;> grind [find]

lemma find_erase : find k' (erase k m) = if k' = k then none else find k' m := by
  induction m with
  | nil => simp [erase,find]
  | cons entry rest ih =>
    obtain ⟨x,u⟩ := entry
    rw [erase]
    rw [erase] at ih
    split_ifs <;> grind [find]

lemma put_put : put k w (put k v m) = put k w m := by
  induction m with
  | nil => simp [put]
  | cons entry rest ih =>
    obtain ⟨x,u⟩ := entry
    rw [put,put]
    split_ifs with before same
    · simp [put]
    · simp [put]
    · rw [put,if_neg before,if_neg same,ih]

lemma mem_put {entry : κ × α} (member : entry ∈ put k v m) : entry = (k,v) ∨ entry ∈ m := by
  induction m with
  | nil => exact .inl (mem_singleton.mp member)
  | cons first rest ih =>
    obtain ⟨x,u⟩ := first
    rw [put] at member
    split_ifs at member <;> grind

section
variable (sorted : Sorted m)
include sorted

lemma Sorted.put : Sorted (put k v m) := by
  induction m with
  | nil => exact pairwise_singleton _ _
  | cons first rest ih =>
    obtain ⟨x,u⟩ := first
    obtain ⟨least,tail⟩ := pairwise_cons.mp sorted
    rw [Association.put]
    split_ifs with before same
    · refine pairwise_cons.mpr ⟨?_,sorted⟩
      intro entry member
      rcases mem_cons.mp member with rfl | later
      · exact before
      · exact lt_trans before (least entry later)
    · subst same
      exact pairwise_cons.mpr ⟨least,tail⟩
    · refine pairwise_cons.mpr ⟨?_,ih tail⟩
      intro entry member
      rcases mem_put member with rfl | later
      · exact lt_of_le_of_ne (not_lt.mp before) same
      · exact least entry later

lemma Sorted.erase : Sorted (erase k m) := List.Pairwise.filter _ sorted

lemma Sorted.keys : (keys m).Pairwise (· < ·) := pairwise_map.mpr sorted

lemma find_of_mem (member : (k,v) ∈ m) : find k m = some v := by
  induction m with
  | nil => cases member
  | cons first rest ih =>
    obtain ⟨x,u⟩ := first
    obtain ⟨least,tail⟩ := pairwise_cons.mp sorted
    rw [find_cons]
    rcases mem_cons.mp member with same | later
    · cases same
      exact if_pos rfl
    · rw [if_neg (ne_of_lt (least _ later)),ih tail later]

lemma Sorted.nodup : m.Nodup := by
  apply List.Pairwise.imp _ sorted
  rintro a _ less rfl
  exact lt_irrefl a.1 less

lemma Sorted.ext (sorted' : Sorted n) (same : ∀ k,find k m = find k n) : m = n := by
  have apart : ∀ a b : κ × α,a ∈ m → b ∈ n → a.1 < b.1 → b.1 < a.1 → a = b :=
    fun a b _ _ less more => absurd more (lt_asymm less)
  apply List.Perm.eq_of_pairwise apart sorted sorted'
  apply (perm_ext_iff_of_nodup sorted.nodup sorted'.nodup).mpr
  rintro ⟨k,v⟩
  constructor
  · intro member
    exact mem_of_find ((same k).symm.trans (find_of_mem sorted member))
  · intro member
    exact mem_of_find ((same k).trans (find_of_mem sorted' member))

lemma sort_keys {order : List κ} (perm : order.Perm (keys m)) : order.insertionSort (· ≤ ·) = keys m := by
  apply List.Perm.eq_of_pairwise (fun a b _ _ => le_antisymm) (pairwise_insertionSort (· ≤ ·) order)
    (sorted.keys.imp le_of_lt)
  exact (perm_insertionSort (· ≤ ·) order).trans perm

lemma find_filter (test : α → Bool) :
    find k (m.filter (fun entry => test entry.2)) = (find k m).filter test := by
  induction m with
  | nil => rfl
  | cons first rest ih =>
    obtain ⟨x,u⟩ := first
    obtain ⟨least,tail⟩ := pairwise_cons.mp sorted
    have absent : x = k → find k rest = none := by
      rintro rfl
      rw [find_eq_none]
      intro member
      obtain ⟨entry,inside,same⟩ := mem_map.mp member
      exact absurd (least entry inside) (by rw [same]; exact lt_irrefl _)
    rw [filter_cons,find_cons]
    split_ifs with passes same same
    · rw [find_cons,if_pos same,Option.filter_some,if_pos passes]
    · rw [find_cons,if_neg same,ih tail]
    · rw [ih tail,absent same,Option.filter_some,if_neg passes]
      rfl
    · exact ih tail

lemma put_of_find (found : find k m = some v) : put k v m = m := by
  apply sorted.put.ext sorted
  intro k'
  rw [find_put]
  split_ifs with same
  · rw [same,found]
  · rfl

lemma put_erase : put k v (erase k m) = put k v m := by
  apply sorted.erase.put.ext sorted.put
  intro k'
  rw [find_put,find_put,find_erase]
  split_ifs <;> rfl

end

lemma find_isSome : (find k m).isSome = true ↔ k ∈ keys m := by
  rw [← not_iff_not,← find_eq_none,Bool.not_eq_true,Option.isSome_eq_false_iff,Option.isNone_iff_eq_none]

lemma Sorted.keys_nodup (sorted : Sorted m) : (Association.keys m).Nodup := sorted.keys.imp ne_of_lt

lemma Sorted.of_keys {β : Type} {n : List (κ × β)} (sorted : Sorted m) (same : Association.keys m = Association.keys n) :
    Sorted n := by
  have ascending := sorted.keys
  rw [same] at ascending
  exact pairwise_map.mp ascending

end Association
