import Tempest.Memstore
import Tempest.Lib.Paging

/-! The pages of `ListRuns`. Each call iterates over the runs in an order of its own and
sorts by `CreatedAt` alone. -/
namespace Tempest.Pages
open Filing Paging List

def matching (s : Store) (f : Store.RunFilter) : List Run := s.runs.rows.filter f.admits

def pages (s : Store) (f : Store.RunFilter) (size : Nat) (orders : Nat → List String) (n : Nat) : List Run :=
  (List.range n).flatMap (fun i => s.listRuns (orders i) { f with limit := size, offset := (i * size : Nat) })

variable {size : Nat} (s : Store)

lemma page_slice (positive : 0 < size) (i : Nat) (rows : List Run) :
    Store.page (size : Int) ((i * size : Nat) : Int) rows = slice rows size i := by
  have start : (if 0 < ((i * size : Nat) : Int) then rows.drop ((i * size : Nat) : Int).toNat else rows) =
      rows.drop (i * size) := by
    split_ifs with moved
    · rw [Int.toNat_natCast]
    · have zero : i * size = 0 := by omega
      rw [zero,drop_zero]
  unfold Store.page slice
  rw [start]
  dsimp only
  split_ifs with long
  · rw [Int.toNat_natCast]
  · rw [take_of_length_le]
    omega

variable (f : Store.RunFilter)

lemma matching_nodup : (matching s f).Nodup := s.runs.rows_nodup.filter _

def sorted (s : Store) (f : Store.RunFilter) (order : List String) : List Run :=
  ((s.runs.range order).filter f.admits).insertionSort (fun a b => b.createdAt ≤ a.createdAt)

variable (order : List String)

lemma listRuns_page (positive : 0 < size) (i : Nat) :
    s.listRuns order { f with limit := size,offset := (i * size : Nat) } = slice (sorted s f order) size i :=
  page_slice positive i (sorted s f order)

lemma sorted_falling : Falling Run.createdAt (sorted s f order) :=
  pairwise_insertionSort _ _

lemma sorted_perm : (sorted s f order).Perm (matching s f) :=
  (perm_insertionSort _ _).trans ((s.runs.range_perm order).filter _)

lemma exists_order {rows : List Run} (falling : Falling Run.createdAt rows)
    (perm : rows.Perm (matching s f)) : sorted s f (rows.map Run.key) = rows := by
  have matches_ : ∀ r,r ∈ rows ↔ r ∈ s.runs.rows ∧ f.admits r = true := by
    intro r
    rw [perm.mem_iff,matching,mem_filter]
  have listed := s.runs.range_listed rows (fun r member => ((matches_ r).mp member).1)
    (perm.nodup_iff.mpr (matching_nodup s f))
  have front := filter_eq_self.mpr (fun r member => ((matches_ r).mp member).2)
  have back : (s.runs.rows.filter (fun r => r.key ∉ rows.map Run.key)).filter f.admits = [] := by
    rw [filter_eq_nil_iff]
    intro r member admitted
    obtain ⟨stored,unlisted⟩ := mem_filter.mp member
    have known := (matches_ r).mpr ⟨stored,admitted⟩
    exact of_decide_eq_true unlisted (mem_map_of_mem known)
  unfold sorted
  rw [listed,filter_append,front,back,append_nil]
  exact List.Pairwise.insertionSort_eq falling

/-- Whatever the orders of the iterations, the pages have each matching run once, exactly
if no two runs created at the same instant are on different pages. -/
theorem pages_tile_iff (s : Store) (f : Store.RunFilter) {size : Nat} (positive : 0 < size) :
    (∀ orders n, (matching s f).length ≤ n * size → (pages s f size orders n).Perm (matching s f)) ↔
      Unsplit Run.createdAt (matching s f) size := by
  rw [← slices_perm_iff (matching_nodup s f) positive]
  simp only [pages,listRuns_page s f _ positive]
  constructor
  · intro tiles rows arranged n enough
    have result := tiles (fun i => (rows i).map Run.key) n enough
    simpa only [exists_order s f (arranged _).1 (arranged _).2] using result
  · intro tiles orders n enough
    exact tiles (fun i => sorted s f (orders i)) (fun i => ⟨sorted_falling s f _,sorted_perm s f _⟩) n enough

def runAt (id : String) (createdAt : Time) : Run where
  id
  ns := "ns"
  workflow := ⟨"ns","flow",1⟩
  state := .queued
  input := { workflow := ⟨"ns","flow",1⟩ }
  steps := []
  createdAt

def twoRuns (first second : Time) : Store :=
  { Store.new with runs := (Table.empty.insert (runAt "r1" first)).insert (runAt "r2" second) }

theorem distinct_instants_tile :
    (pages (twoRuns 1 2) {} 1 (fun i => if i = 0 then ["ns/r1","ns/r2"] else ["ns/r2","ns/r1"]) 2).Perm
      (matching (twoRuns 1 2) {}) :=
  (pages_tile_iff (twoRuns 1 2) {} (by decide)).mpr (by unfold Unsplit; decide) _ 2 (by decide)

/-- Two pages of size one, iterated in opposite orders, have the same run. -/
theorem equal_instants_repeat :
    pages (twoRuns 1 1) {} 1 (fun i => if i = 0 then ["ns/r1","ns/r2"] else ["ns/r2","ns/r1"]) 2 =
        [runAt "r1" 1,runAt "r1" 1] ∧
      ¬ ∀ orders n, (matching (twoRuns 1 1) {}).length ≤ n * 1 →
        (pages (twoRuns 1 1) {} 1 orders n).Perm (matching (twoRuns 1 1) {}) := by
  have twice : pages (twoRuns 1 1) {} 1 (fun i => if i = 0 then ["ns/r1","ns/r2"] else ["ns/r2","ns/r1"]) 2 =
      [runAt "r1" 1,runAt "r1" 1] := by decide
  refine ⟨twice,?_⟩
  intro tiles
  have perm := tiles (fun i => if i = 0 then ["ns/r1","ns/r2"] else ["ns/r2","ns/r1"]) 2 (by decide)
  rw [twice] at perm
  have once := perm.nodup_iff.mpr (matching_nodup _ _)
  simp at once

end Tempest.Pages
