import Tempest.Lib.Association

/-! Maps and slices in memory. A value is a scalar, the address of a map or a window of an
array; several values can refer to one map, and several windows can overlap, so a store
through one of them is seen through the others. `Occurs` says by which path a location is
reached from a value. -/
open List
namespace Heaps
open Association

structure Slice where
  array : Nat
  start : Nat
  len : Nat
  cap : Nat
  deriving DecidableEq

inductive Ref (σ : Type)
  | scalar (s : σ)
  | map (addr : Nat)
  | slice (s : Slice)
  deriving DecidableEq

structure Heap (κ σ : Type) where
  maps : List (List (κ × Ref σ))
  arrays : List (List (Ref σ))
  deriving DecidableEq

/-- What is stored to at once: a map, or a cell of an array. -/
inductive Loc
  | map (addr : Nat)
  | cell (array i : Nat)
  deriving DecidableEq

variable {κ σ : Type}

def overwrite (cells : List (Ref σ)) (first : Nat) (refs : List (Ref σ)) : List (Ref σ) :=
  cells.mapIdx (fun i c => if first ≤ i then (refs[i - first]?).getD c else c)

namespace Heap

def members (h : Heap κ σ) (addr : Nat) : List (κ × Ref σ) := (h.maps[addr]?).getD []

def cells (h : Heap κ σ) (array : Nat) : List (Ref σ) := (h.arrays[array]?).getD []

def items (h : Heap κ σ) (s : Slice) : List (Ref σ) := ((h.cells s.array).drop s.start).take s.len

def load (h : Heap κ σ) : Loc → Option (List (κ × Ref σ) ⊕ Ref σ)
  | .map addr => (h.maps[addr]?).map Sum.inl
  | .cell array i => ((h.cells array)[i]?).map Sum.inr

def setMap (h : Heap κ σ) (addr : Nat) (ms : List (κ × Ref σ)) : Heap κ σ := { h with maps := h.maps.set addr ms }

def write (h : Heap κ σ) (array first : Nat) (refs : List (Ref σ)) : Heap κ σ :=
  { h with arrays := h.arrays.modify array (overwrite · first refs) }

def newMap (h : Heap κ σ) : Ref σ × Heap κ σ := (.map h.maps.length,{ h with maps := h.maps ++ [[]] })

def newSlice (h : Heap κ σ) (refs spare : List (Ref σ)) : Slice × Heap κ σ :=
  (⟨h.arrays.length,0,refs.length,refs.length + spare.length⟩,{ h with arrays := h.arrays ++ [refs ++ spare] })

def append (h : Heap κ σ) (spare : List (Ref σ)) (s : Slice) (r : Ref σ) : Slice × Heap κ σ :=
  if s.len < s.cap then ({ s with len := s.len + 1 },h.write s.array (s.start + s.len) [r])
  else h.newSlice (h.items s ++ [r]) spare

def removeAt (h : Heap κ σ) (s : Slice) (i : Nat) : Slice × Heap κ σ :=
  ({ s with len := s.len - 1 },h.write s.array (s.start + i) ((h.items s).drop (i + 1)))

def row (array first count : Nat) : List Loc := (List.range count).map (fun k => .cell array (first + k))

def appendStores (s : Slice) : List Loc := if s.len < s.cap then [.cell s.array (s.start + s.len)] else []

def removeStores (s : Slice) (i : Nat) : List Loc := row s.array (s.start + i) (s.len - (i + 1))

end Heap

variable {h h' : Heap κ σ}

lemma overwrite_getElem? (cells refs : List (Ref σ)) (first i : Nat) : (overwrite cells first refs)[i]? =
      (cells[i]?).map (fun c => if first ≤ i then (refs[i - first]?).getD c else c) := getElem?_mapIdx

lemma overwrite_outside (cells : List (Ref σ)) {refs : List (Ref σ)} {first i : Nat}
    (outside : ¬(first ≤ i ∧ i < first + refs.length)) : (overwrite cells first refs)[i]? = cells[i]? := by
  rw [overwrite_getElem?]
  by_cases after : first ≤ i
  · have none_ : refs[i - first]? = none := getElem?_eq_none (by omega)
    simp [after,none_]
  · simp [after]

namespace Heap

lemma write_cells (h : Heap κ σ) (array first : Nat) (refs : List (Ref σ)) (q : Nat) :
    (h.write array first refs).cells q = if q = array then overwrite (h.cells array) first refs else h.cells q := by
  rw [cells,write,getElem?_modify]
  by_cases same : q = array
  · subst same
    rw [if_pos rfl,cells]
    cases h.arrays[q]? with
    | none => rfl
    | some old => simp
  · have other : ¬array = q := fun equal => same equal.symm
    rw [if_neg same,cells]
    cases h.arrays[q]? with
    | none => rfl
    | some old => simp [other]

lemma newSlice_cells (h : Heap κ σ) (refs spare : List (Ref σ)) (q : Nat) :
    (h.newSlice refs spare).2.cells q = if q = h.arrays.length then refs ++ spare else h.cells q := by
  rw [cells,newSlice]
  rw [getElem?_append]
  split_ifs with old same new
  · omega
  · rfl
  · simp [new]
  · rw [getElem?_eq_none (by simp; omega),cells,getElem?_eq_none (by omega)]

def Holds (h : Heap κ σ) (l : Loc) : Prop := (h.load l).isSome = true

lemma holds_map {addr : Nat} : h.Holds (.map addr) ↔ addr < h.maps.length := by
  simp [Holds,load]

lemma holds_cell {array i : Nat} : h.Holds (.cell array i) ↔ i < (h.cells array).length := by
  simp [Holds,load]

/-- Everything that was there still is, and is the same but for the given locations. -/
structure Frame (h h' : Heap κ σ) (stores : List Loc) : Prop where
  grows : ∀ l,h.Holds l → h'.Holds l
  keeps : ∀ l,h.Holds l → l ∉ stores → h'.load l = h.load l

lemma Frame.refl (h : Heap κ σ) : Frame h h [] := ⟨fun _ there => there,fun _ _ _ => rfl⟩

lemma Frame.trans {h₁ h₂ h₃ : Heap κ σ} {stores more : List Loc} (first : Frame h₁ h₂ stores)
    (second : Frame h₂ h₃ more) : Frame h₁ h₃ (stores ++ more) := by
  refine ⟨fun l there => second.grows l (first.grows l there),fun l there outside => ?_⟩
  rw [mem_append,not_or] at outside
  rw [second.keeps l (first.grows l there) outside.2,first.keeps l there outside.1]

lemma Frame.mono {stores more : List Loc} (frame : Frame h h' stores) (sub : ∀ l ∈ stores,l ∈ more) :
    Frame h h' more := ⟨frame.grows,fun l there outside => frame.keeps l there (fun inside => outside (sub l inside))⟩

lemma setMap_frame (h : Heap κ σ) (addr : Nat) (ms : List (κ × Ref σ)) : Frame h (h.setMap addr ms) [.map addr] := by
  constructor
  · intro l there
    cases l with
    | map b =>
      rw [holds_map] at there ⊢
      rw [setMap,length_set]
      exact there
    | cell array i => exact there
  · intro l _ outside
    cases l with
    | map b =>
      have other : addr ≠ b := fun same => outside (by rw [same]; exact mem_singleton.mpr rfl)
      rw [load,load,setMap,getElem?_set_ne other]
    | cell array i => rfl

lemma mem_row {array first count : Nat} {l : Loc} :
    l ∈ row array first count ↔ ∃ i,first ≤ i ∧ i < first + count ∧ l = .cell array i := by
  rw [row,mem_map]
  constructor
  · rintro ⟨k,member,rfl⟩
    exact ⟨first + k,by omega,by rw [mem_range] at member; omega,rfl⟩
  · rintro ⟨i,after,before,rfl⟩
    exact ⟨i - first,by rw [mem_range]; omega,by rw [Nat.add_sub_cancel' after]⟩

lemma write_frame (h : Heap κ σ) (array first : Nat) (refs : List (Ref σ)) :
    Frame h (h.write array first refs) (row array first refs.length) := by
  constructor
  · intro l there
    cases l with
    | map b => exact there
    | cell q i =>
      rw [holds_cell] at there ⊢
      rw [write_cells]
      by_cases same : q = array
      · subst same
        rw [if_pos rfl,overwrite,length_mapIdx]
        exact there
      · rw [if_neg same]
        exact there
  · intro l _ outside
    cases l with
    | map b => rfl
    | cell q i =>
      rw [load,load,write_cells]
      by_cases same : q = array
      · subst same
        rw [if_pos rfl,overwrite_outside]
        rintro ⟨after,before⟩
        exact outside (mem_row.mpr ⟨i,after,before,rfl⟩)
      · rw [if_neg same]

lemma Frame.of_load (same : ∀ l,h.Holds l → h'.load l = h.load l) : Frame h h' [] := by
  refine ⟨fun l there => ?_,fun l there _ => same l there⟩
  rw [Holds,same l there]
  exact there

lemma newMap_frame (h : Heap κ σ) : Frame h h.newMap.2 [] := by
  refine Frame.of_load (fun l there => ?_)
  cases l with
  | map b =>
    rw [load,load,newMap]
    rw [getElem?_append_left (holds_map.mp there)]
  | cell array i => rfl

lemma newSlice_frame (h : Heap κ σ) (refs spare : List (Ref σ)) : Frame h (h.newSlice refs spare).2 [] := by
  refine Frame.of_load (fun l there => ?_)
  cases l with
  | map b => rfl
  | cell q i =>
    have old : q ≠ h.arrays.length := by
      rintro rfl
      rw [holds_cell,cells,getElem?_eq_none (le_refl _)] at there
      cases there
    rw [load,load,newSlice_cells,if_neg old]

lemma append_frame (h : Heap κ σ) (spare : List (Ref σ)) (s : Slice) (r : Ref σ) :
    Frame h (h.append spare s r).2 (appendStores s) := by
  rw [append,appendStores]
  split_ifs with room
  · exact h.write_frame s.array (s.start + s.len) [r]
  · exact h.newSlice_frame _ _

lemma removeAt_frame (h : Heap κ σ) (s : Slice) (i : Nat) : Frame h (h.removeAt s i).2 (removeStores s i) := by
  refine (h.write_frame s.array (s.start + i) ((h.items s).drop (i + 1))).mono (fun l inside => ?_)
  obtain ⟨k,after,before,rfl⟩ := mem_row.mp inside
  have moved : ((h.items s).drop (i + 1)).length ≤ s.len - (i + 1) := by
    rw [length_drop,items,length_take]
    omega
  exact mem_row.mpr ⟨k,after,by omega,rfl⟩

end Heap

namespace Valid

variable {s : Slice}

end Valid

inductive Step (κ : Type)
  | key (k : κ)
  | item (i : Nat)
  deriving DecidableEq

def Own : Ref σ → Loc → Prop
  | .scalar _,_ => False
  | .map addr,l => l = .map addr
  | .slice s,l => ∃ i < s.len,l = .cell s.array (s.start + i)

section Paths

variable [LinearOrder κ]

def part (h : Heap κ σ) : Ref σ → Step κ → Option (Ref σ)
  | .map addr,.key k => find k (h.members addr)
  | .slice s,.item i => (h.items s)[i]?
  | _,_ => none

/-- A location that is reached from a value by a path. -/
inductive Occurs (h : Heap κ σ) : Ref σ → List (Step κ) → Loc → Prop
  | here {r : Ref σ} {l : Loc} (own : Own r l) (there : h.Holds l) : Occurs h r [] l
  | inside {r next : Ref σ} {step : Step κ} {path : List (Step κ)} {l : Loc} (found : part h r step = some next)
    (inner : Occurs h next path l) : Occurs h r (step :: path) l

def Visible (h : Heap κ σ) (root : Ref σ) (l : Loc) : Prop := ∃ path,Occurs h root path l

/-- Every map that is reached from a value has the same members, and every cell the same
contents. -/
def Unchanged (h h' : Heap κ σ) (root : Ref σ) : Prop := ∀ l,Visible h root l → h'.load l = h.load l

lemma Occurs.holds {r : Ref σ} {path : List (Step κ)} {l : Loc} (occurs : Occurs h r path l) : h.Holds l := by
  induction occurs with
  | here _ there => exact there
  | inside _ _ ih => exact ih

end Paths

end Heaps
