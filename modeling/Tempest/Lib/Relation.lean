import Mathlib.Data.List.Sort
import Tempest.Lib.Filing

/-! Statements of a relational database over one table with a primary key. A table
is the set of its rows, filed under the key; a statement that would file two rows
under one key fails. -/
namespace Relation
open Filing List

variable {K V : Type} {key : V → K} [DecidableEq K]

def insert (t : Table key) (row : V) : Option (Table key) :=
  match t.lookup (key row) with
  | some _ => none
  | none => some (t.insert row)

def upsert (t : Table key) (row : V) (set : V → V) : Table key :=
  match t.lookup (key row) with
  | some old => t.insert (set old)
  | none => t.insert row

variable (t : Table key) (cond : V → Bool)

omit [DecidableEq K] in
private lemma update_distinct (set : V → V) (keeps : ∀ row,key (set row) = key row) :
    ((t.rows.map (fun row => if cond row then set row else row)).map key).Nodup := by
  have same : (t.rows.map (fun row => if cond row then set row else row)).map key = t.rows.map key := by
    rw [List.map_map]
    apply map_congr_left
    intro row _
    by_cases chosen : cond row = true
    · simp [chosen,keeps]
    · simp [chosen]
  rw [same]
  exact t.distinct

/-- `UPDATE ... SET ... WHERE cond`, which leaves the key alone, with the number of
rows affected. -/
def update (t : Table key) (cond : V → Bool) (set : V → V) (keeps : ∀ row, key (set row) = key row) : Nat × Table key :=
  ((t.rows.filter cond).length,⟨t.rows.map (fun row => if cond row then set row else row),update_distinct t cond set keeps⟩)

def selectLast (t : Table key) (cond : V → Bool) (rank : V → Int) : Option V :=
  ((t.rows.filter cond).insertionSort (fun a b => rank b ≤ rank a)).head?

section
omit [DecidableEq K]

lemma mem_update (set : V → V) (keeps : ∀ row,key (set row) = key row) (row : V) :
    row ∈ (update t cond set keeps).2.rows ↔ ∃ old ∈ t.rows,row = if cond old then set old else old := by
  simp only [update,mem_map]
  constructor
  all_goals
    rintro ⟨old,member,same⟩
    exact ⟨old,member,same.symm⟩

lemma selectLast_eq_none (rank : V → Int) :
    selectLast t cond rank = none ↔ ∀ row ∈ t.rows,cond row = false := by
  unfold selectLast
  rw [head?_eq_none_iff,← length_eq_zero_iff,length_insertionSort,length_eq_zero_iff]
  simp

lemma selectLast_some (rank : V → Int) (row : V) (found : selectLast t cond rank = some row) :
    row ∈ t.rows ∧ cond row = true ∧ ∀ other ∈ t.rows,cond other = true → rank other ≤ rank row := by
  let sorted := (t.rows.filter cond).insertionSort (fun a b => rank b ≤ rank a)
  have members : ∀ other,other ∈ sorted ↔ other ∈ t.rows ∧ cond other = true := by
    intro other
    exact (mem_insertionSort _).trans mem_filter
  have falling : sorted.Pairwise (fun a b => rank b ≤ rank a) := pairwise_insertionSort _ _
  obtain ⟨rest,split⟩ : ∃ rest,sorted = row :: rest := head?_eq_some_iff.mp found
  have first := (members row).mp (by rw [split]; simp)
  refine ⟨first.1,first.2,?_⟩
  intro other stored chosen
  have inside := (members other).mpr ⟨stored,chosen⟩
  rw [split] at inside falling
  rcases mem_cons.mp inside with rfl | behind
  · exact le_rfl
  · exact rel_of_pairwise_cons falling behind

end

end Relation
