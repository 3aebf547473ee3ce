import Mathlib.Data.List.Dedup
import Mathlib.Data.List.Perm.Basic
import Mathlib.Data.List.Perm.Lattice

/-! Finite tables whose rows are filed under a key computed from the row itself.
A row can never sit under a foreign key and no key is used twice, because a
table carries both facts. Iteration follows an order that the caller supplies,
so that every enumeration of the rows is the enumeration of some order. -/
namespace Filing

structure Table {K V : Type} (key : V → K) where
  rows : List V
  distinct : (rows.map key).Nodup

namespace Table

variable {K V : Type} {key : V → K}

def empty : Table key := ⟨[],List.nodup_nil⟩

variable {v : V}

lemma key_injective (t : Table key) {w : V} (left : v ∈ t.rows) (right : w ∈ t.rows)
    (same : key v = key w) : v = w :=
  List.inj_on_of_nodup_map t.distinct left right same

lemma rows_nodup (t : Table key) : t.rows.Nodup := t.distinct.of_map

private lemma filter_distinct (rows : List V) (keep : V → Bool) (distinct : (rows.map key).Nodup) :
    ((rows.filter keep).map key).Nodup :=
  distinct.sublist (List.filter_sublist.map key)

def filter (t : Table key) (keep : V → Bool) : Table key := ⟨t.rows.filter keep,filter_distinct _ _ t.distinct⟩

lemma ext_rows {t u : Table key} (same : t.rows = u.rows) : t = u := by
  cases t
  cases u
  cases same
  rfl

lemma mem_filter (t : Table key) (keep : V → Bool) (v : V) :
    v ∈ (t.filter keep).rows ↔ v ∈ t.rows ∧ keep v = true :=
  List.mem_filter

lemma filter_filter (t : Table key) (first second : V → Bool) :
    (t.filter first).filter second = t.filter (fun v => first v && second v) := by
  apply ext_rows
  simp [filter,List.filter_filter,Bool.and_comm]

variable [DecidableEq K]

def lookup (t : Table key) (k : K) : Option V := t.rows.find? (fun row => key row = k)

def erase (t : Table key) (k : K) : Table key :=
  ⟨t.rows.filter (fun row => key row ≠ k),filter_distinct _ _ t.distinct⟩

private lemma insert_distinct (t : Table key) (v : V) : ((v :: (t.erase (key v)).rows).map key).Nodup := by
  rw [List.map_cons,List.nodup_cons]
  refine ⟨?_,(t.erase (key v)).distinct⟩
  intro member
  obtain ⟨row,kept,same⟩ := List.mem_map.mp member
  have different := (List.mem_filter.mp kept).2
  simp [same] at different

def insert (t : Table key) (v : V) : Table key :=
  ⟨v :: (t.erase (key v)).rows,insert_distinct t v⟩

def range (t : Table key) (order : List K) : List V :=
  order.dedup.filterMap t.lookup ++ t.rows.filter (fun row => key row ∉ order)

section
variable (t : Table key)
variable (k : K)

include t

lemma lookup_eq_some (v : V) : t.lookup k = some v ↔ v ∈ t.rows ∧ key v = k := by
  constructor
  · intro found
    exact ⟨List.mem_of_find?_eq_some found,by simpa using List.find?_some found⟩
  · rintro ⟨member,rfl⟩
    cases found : t.lookup (key v) with
    | none =>
      have absent := List.find?_eq_none.mp found v member
      simp at absent
    | some w =>
      have inside := List.mem_of_find?_eq_some found
      have same : key w = key v := by simpa using List.find?_some found
      rw [t.key_injective inside member same]

lemma lookup_key {k : K} (found : t.lookup k = some v) : key v = k :=
  ((t.lookup_eq_some k v).mp found).2

lemma lookup_mem {k : K} (found : t.lookup k = some v) : v ∈ t.rows :=
  ((t.lookup_eq_some k v).mp found).1

lemma lookup_of_mem (member : v ∈ t.rows) : t.lookup (key v) = some v :=
  (t.lookup_eq_some _ v).mpr ⟨member,rfl⟩

lemma lookup_eq_none : t.lookup k = none ↔ ∀ v ∈ t.rows,key v ≠ k := by
  simp [lookup,List.find?_eq_none]

lemma mem_erase (v : V) : v ∈ (t.erase k).rows ↔ v ∈ t.rows ∧ key v ≠ k := by
  simp [erase]

lemma mem_insert (v w : V) : w ∈ (t.insert v).rows ↔ w = v ∨ w ∈ t.rows ∧ key w ≠ key v := by
  simp [insert,mem_erase]

lemma lookup_erase (k other : K) : (t.erase k).lookup other = if other = k then none else t.lookup other := by
  apply Option.ext
  intro v
  rw [lookup_eq_some,mem_erase]
  split_ifs with same
  · subst same
    constructor
    · rintro ⟨⟨_,different⟩,equal⟩
      exact absurd equal different
    · intro absent
      cases absent
  · rw [lookup_eq_some]
    constructor
    · rintro ⟨⟨member,_⟩,equal⟩
      exact ⟨member,equal⟩
    · rintro ⟨member,equal⟩
      exact ⟨⟨member,fun clash => same (equal.symm.trans clash)⟩,equal⟩

lemma lookup_insert (v : V) (k : K) : (t.insert v).lookup k = if k = key v then some v else t.lookup k := by
  apply Option.ext
  intro w
  rw [lookup_eq_some,mem_insert]
  split_ifs with same
  · subst same
    constructor
    · rintro ⟨rfl | ⟨_,different⟩,equal⟩
      · rfl
      · exact absurd equal different
    · intro filed
      cases filed
      exact ⟨.inl rfl,rfl⟩
  · rw [lookup_eq_some]
    constructor
    · rintro ⟨rfl | ⟨member,_⟩,equal⟩
      · exact absurd equal.symm same
      · exact ⟨member,equal⟩
    · rintro ⟨member,equal⟩
      exact ⟨.inr ⟨member,fun clash => same (equal.symm.trans clash)⟩,equal⟩

@[simp] lemma lookup_insert_self (v : V) : (t.insert v).lookup (key v) = some v := by
  simp [lookup_insert]

@[simp] lemma lookup_erase_self : (t.erase k).lookup k = none := by
  simp [lookup_erase]

end

section Listed

variable {E : Type} {t : Table key} {entries : List E} {row : E → V}
  (listed : ∀ v, v ∈ t.rows ↔ ∃ e ∈ entries, row e = v)

include listed

lemma lookup_listed {e : E} (member : e ∈ entries) : t.lookup (key (row e)) = some (row e) :=
  t.lookup_of_mem ((listed _).mpr ⟨e,member,rfl⟩)

lemma lookup_unlisted {k : K} (absent : ∀ e ∈ entries,key (row e) ≠ k) : t.lookup k = none := by
  rw [lookup_eq_none]
  intro v stored
  obtain ⟨e,member,rfl⟩ := (listed v).mp stored
  exact absent e member

lemma insert_listed (new : E) (free : ∀ e ∈ entries,key (row e) ≠ key (row new)) (v : V) :
    v ∈ (t.insert (row new)).rows ↔ ∃ e ∈ entries ++ [new],row e = v := by
  simp only [mem_insert,listed,List.mem_append,List.mem_singleton]
  constructor
  · rintro (rfl | ⟨⟨e,member,same⟩,_⟩)
    · exact ⟨new,.inr rfl,rfl⟩
    · exact ⟨e,.inl member,same⟩
  · rintro ⟨e,member | rfl,rfl⟩
    · exact .inr ⟨⟨e,member,rfl⟩,free e member⟩
    · exact .inl rfl

end Listed

lemma mem_range (t : Table key) (order : List K) (v : V) : v ∈ t.range order ↔ v ∈ t.rows := by
  simp only [range,List.mem_append,List.mem_filterMap,List.mem_dedup,List.mem_filter,decide_eq_true_eq]
  constructor
  · rintro (⟨k,_,found⟩ | ⟨member,_⟩)
    · exact t.lookup_mem found
    · exact member
  · intro member
    by_cases listed : key v ∈ order
    · exact .inl ⟨key v,listed,t.lookup_of_mem member⟩
    · exact .inr ⟨member,listed⟩

lemma range_nodup (t : Table key) (order : List K) : (t.range order).Nodup := by
  apply List.Nodup.append
  · apply List.Nodup.filterMap _ (List.nodup_dedup order)
    intro k other v found again
    rw [← t.lookup_key found,← t.lookup_key again]
  · exact t.rows_nodup.filter _
  · intro v first second
    obtain ⟨k,listed,found⟩ := List.mem_filterMap.mp first
    have unlisted := (List.mem_filter.mp second).2
    rw [t.lookup_key found] at unlisted
    simp [List.mem_dedup.mp listed] at unlisted

lemma range_perm (t : Table key) (order : List K) : (t.range order).Perm t.rows :=
  (List.perm_ext_iff_of_nodup (t.range_nodup order) t.rows_nodup).mpr (t.mem_range order)

lemma range_listed (t : Table key) (front : List V) (inside : ∀ v ∈ front,v ∈ t.rows) (distinct : front.Nodup) :
    t.range (front.map key) = front ++ t.rows.filter (fun row => key row ∉ front.map key) := by
  have keysDistinct :=
    distinct.map_on (fun v left w right same => t.key_injective (inside v left) (inside w right) same)
  have found : (front.map key).filterMap t.lookup = front := by
    rw [List.filterMap_map]
    conv_rhs => rw [← List.filterMap_some (l := front)]
    apply List.filterMap_congr
    intro v member
    exact t.lookup_of_mem (inside v member)
  rw [range,List.Nodup.dedup keysDistinct,found]

lemma range_first (t : Table key) {front back : List K} {k : K} (distinct : (front ++ k :: back).Nodup)
    (absent : ∀ other ∈ front,t.lookup other = none) (found : t.lookup k = some v) :
    ∃ rest,t.range (front ++ k :: back) = v :: rest := by
  have none : front.filterMap t.lookup = [] := List.filterMap_eq_nil_iff.mpr absent
  rw [range,List.Nodup.dedup distinct,List.filterMap_append,none,List.filterMap_cons_some found]
  exact ⟨_,rfl⟩

end Table

end Filing
