import Mathlib.Data.String.Basic
import Tempest.Lib.Association

/-! The masker for nested data. A map is ranged over in any order and its result is filled
key by key. What lies below a sensitive key leaves no trace in the result, unless the key is
in a map or a slice of a type that the masker does not look into: those it copies. -/
namespace Tempest.Masking
open Association

/-- Texts, maps and slices as the masker tells them apart (`string`, `map[string]any`, `[]any`),
maps and slices of other types, such as `map[string]string`, and any other value. -/
inductive Value (S : Type) where
  | text (text : String)
  | map (members : List (String × Value S))
  | slice (items : List (Value S))
  | typedMap (members : List (String × Value S))
  | typedSlice (items : List (Value S))
  | other (value : S)

abbrev Members (S : Type) := List (String × Value S)

/-- The way to a map by keys and indices. -/
abbrev Place := List (String ⊕ Nat)

/-- The order in which the map at each place is ranged over. -/
structure Ranges where
  order : Place → List String → List String
  perm : ∀ place keys, (order place keys).Perm keys

structure Masker where
  toLower : String → String
  maskText : String → String

def sensitiveKeys : List String :=
  ["password","passwd","secret","token","api_key","apikey","access_token","refresh_token","authorization","ssn","credit_card"]

variable {S : Type} (m : Masker) (ranges : Ranges)

def Masker.sensitive (key : String) : Bool := sensitiveKeys.contains (m.toLower key)

def fill (order : List String) (masked : Members S) : Members S :=
  order.foldl (fun out key =>
    match find key masked with
    | none => out
    | some value => put key value out) []

mutual

def maskValue (place : Place) : Value S → Value S
  | .text text => .text (m.maskText text)
  | .map members => .map (fill (ranges.order place (keys members)) (maskMembers place members))
  | .slice items => .slice (maskSlice place 0 items)
  | .typedMap members => .typedMap members
  | .typedSlice items => .typedSlice items
  | .other value => .other value

def maskMembers (place : Place) : Members S → Members S
  | [] => []
  | (key,value) :: rest =>
    (key,if m.sensitive key then .text "[REDACTED]" else maskValue (place ++ [.inl key]) value) :: maskMembers place rest

def maskSlice (place : Place) (i : Nat) : List (Value S) → List (Value S)
  | [] => []
  | item :: rest => maskValue (place ++ [.inr i]) item :: maskSlice place (i + 1) rest

end

def Masker.maskMap (place : Place) (data : Members S) : Members S :=
  fill (ranges.order place (keys data)) (maskMembers m ranges place data)

mutual

/-- The same shape and keys, and the same values except below sensitive keys, where
anything may stand. -/
def Alike : Value S → Value S → Prop
  | .text a,.text b => a = b
  | .map a,.map b | .typedMap a,.typedMap b => AlikeMembers a b
  | .slice a,.slice b | .typedSlice a,.typedSlice b => AlikeItems a b
  | .other a,.other b => a = b
  | _,_ => False

def AlikeMembers : Members S → Members S → Prop
  | [],[] => True
  | (key,a) :: rest,(key',b) :: rest' => key = key' ∧ (m.sensitive key = true ∨ Alike a b) ∧ AlikeMembers rest rest'
  | _,_ => False

def AlikeItems : List (Value S) → List (Value S) → Prop
  | [],[] => True
  | a :: rest,b :: rest' => Alike a b ∧ AlikeItems rest rest'
  | _,_ => False

end

mutual

/-- No key is sensitive, at any depth. -/
def Clean : Value S → Prop
  | .text _ | .other _ => True
  | .map members | .typedMap members => CleanMembers members
  | .slice items | .typedSlice items => CleanItems items

def CleanMembers : Members S → Prop
  | [] => True
  | (key,value) :: rest => m.sensitive key = false ∧ Clean value ∧ CleanMembers rest

def CleanItems : List (Value S) → Prop
  | [] => True
  | item :: rest => Clean item ∧ CleanItems rest

end

mutual

/-- Outside sensitive keys, no map and no slice of another type holds a sensitive key. -/
def Covered : Value S → Prop
  | .text _ | .other _ => True
  | .map members => CoveredMembers members
  | .slice items => CoveredItems items
  | .typedMap members => CleanMembers m members
  | .typedSlice items => CleanItems m items

def CoveredMembers : Members S → Prop
  | [] => True
  | (key,value) :: rest => (m.sensitive key = true ∨ Covered value) ∧ CoveredMembers rest

def CoveredItems : List (Value S) → Prop
  | [] => True
  | item :: rest => Covered item ∧ CoveredItems rest

end

mutual

/-- Every map has a key once. -/
def Distinct : Value S → Prop
  | .text _ | .other _ => True
  | .map members | .typedMap members => (keys members).Nodup ∧ DistinctMembers members
  | .slice items | .typedSlice items => DistinctItems items

def DistinctMembers : Members S → Prop
  | [] => True
  | (_,value) :: rest => Distinct value ∧ DistinctMembers rest

def DistinctItems : List (Value S) → Prop
  | [] => True
  | item :: rest => Distinct item ∧ DistinctItems rest

end

mutual

/-- The same data with another value under every sensitive key. -/
def replace : Value S → Value S
  | .text text => .text text
  | .map members => .map (replaceMembers members)
  | .slice items => .slice (replaceItems items)
  | .typedMap members => .typedMap (replaceMembers members)
  | .typedSlice items => .typedSlice (replaceItems items)
  | .other value => .other value

def replaceMembers : Members S → Members S
  | [] => []
  | (key,value) :: rest => (key,if m.sensitive key then .slice [value] else replace value) :: replaceMembers rest

def replaceItems : List (Value S) → List (Value S)
  | [] => []
  | item :: rest => replace item :: replaceItems rest

end

section fill

variable (masked : Members S)

lemma fill_loop (order : List String) (out : Members S) (sorted : Sorted out) :
    let result := order.foldl (fun out key =>
      match find key masked with
      | none => out
      | some value => put key value out) out
    Sorted result ∧ ∀ key,find key result = if key ∈ order then (find key masked).or (find key out) else find key out := by
  induction order generalizing out with
  | nil => exact ⟨sorted,fun key => rfl⟩
  | cons first order ih =>
    rw [List.foldl_cons]
    cases there : find first masked with
    | none =>
      refine ⟨(ih out sorted).1,fun key => ?_⟩
      rw [(ih out sorted).2]
      by_cases same : key = first
      · simp [same,there]
      · simp [same]
    | some value =>
      have next := ih (put first value out) sorted.put
      refine ⟨next.1,fun key => ?_⟩
      rw [next.2,find_put]
      by_cases same : key = first
      · simp [same,there]
      · simp [same]

lemma find_fill {order : List String} {key : String} (member : key ∈ order) : find key (fill order masked) = find key masked := by
  rw [fill,(fill_loop masked order [] List.Pairwise.nil).2,if_pos member]
  exact Option.or_none

lemma fill_perm {order order' : List String} (perm : order.Perm order') : fill order masked = fill order' masked := by
  obtain ⟨sorted,found⟩ := fill_loop masked order [] List.Pairwise.nil
  obtain ⟨sorted',found'⟩ := fill_loop masked order' [] List.Pairwise.nil
  apply sorted.ext sorted'
  intro key
  rw [found,found']
  simp only [perm.mem_iff]

end fill

variable {m} (ranges' : Ranges)

lemma AlikeMembers.keys_eq : ∀ {a b : Members S},AlikeMembers m a b → keys a = keys b
  | [],[],_ => rfl
  | (key,_) :: rest,(key',_) :: rest',alike => by
    obtain ⟨same,-,later⟩ := alike
    rw [keys,List.map_cons,same]
    exact congrArg _ (AlikeMembers.keys_eq later)

lemma maskMap_eq {a b : Members S} {place place' : Place}
    (same : keys a = keys b) (masked : maskMembers m ranges place a = maskMembers m ranges' place' b) :
    m.maskMap ranges place a = m.maskMap ranges' place' b := by
  have perm : (ranges.order place (keys a)).Perm (ranges'.order place' (keys b)) := by
    rw [← same]
    exact (ranges.perm place (keys a)).trans (ranges'.perm place' (keys a)).symm
  rw [Masker.maskMap,Masker.maskMap,masked,fill_perm _ perm]

mutual

lemma Alike.eq_of_clean : ∀ {a b : Value S},Alike m a b → Clean m a → a = b
  | .text a,.text b,alike,_ | .other a,.other b,alike,_ => by rw [show a = b from alike]
  | .map a,.map b,alike,clean | .typedMap a,.typedMap b,alike,clean => by rw [AlikeMembers.eq_of_clean alike clean]
  | .slice a,.slice b,alike,clean | .typedSlice a,.typedSlice b,alike,clean => by rw [AlikeItems.eq_of_clean alike clean]

lemma AlikeMembers.eq_of_clean : ∀ {a b : Members S},AlikeMembers m a b → CleanMembers m a → a = b
  | [],[],_,_ => rfl
  | (key,a) :: rest,(key',b) :: rest',⟨same,value,later⟩,⟨open_,clean,cleaner⟩ => by
    rcases value with sensitive | value
    · rw [open_] at sensitive
      cases sensitive
    · rw [same,value.eq_of_clean clean,AlikeMembers.eq_of_clean later cleaner]

lemma AlikeItems.eq_of_clean : ∀ {a b : List (Value S)},AlikeItems m a b → CleanItems m a → a = b
  | [],[],_,_ => rfl
  | a :: rest,b :: rest',⟨item,later⟩,⟨clean,cleaner⟩ => by
    rw [item.eq_of_clean clean,AlikeItems.eq_of_clean later cleaner]

end

mutual

lemma maskValue_eq (place place' : Place) :
    ∀ a b : Value S, Alike m a b → Covered m a → maskValue m ranges place a = maskValue m ranges' place' b
  | .text a,.text b,alike,_ | .other a,.other b,alike,_ => by
    rw [maskValue,maskValue,show a = b from alike]
  | .slice a,.slice b,alike,covered => by
    rw [maskValue,maskValue,maskSlice_eq place place' 0 0 a b alike covered]
  | .map a,.map b,alike,covered => by
    rw [maskValue]
    exact congrArg Value.map
      (maskMap_eq ranges ranges' (AlikeMembers.keys_eq alike) (maskMembers_eq place place' a b alike covered))
  | .typedMap a,.typedMap b,alike,clean => by
    rw [maskValue,maskValue,AlikeMembers.eq_of_clean alike clean]
  | .typedSlice a,.typedSlice b,alike,clean => by
    rw [maskValue,maskValue,AlikeItems.eq_of_clean alike clean]

lemma maskMembers_eq (place place' : Place) :
    ∀ a b : Members S,AlikeMembers m a b → CoveredMembers m a →
      maskMembers m ranges place a = maskMembers m ranges' place' b
  | [],[],_,_ => rfl
  | (key,a) :: rest,(key',b) :: rest',alike,covered => by
    obtain ⟨rfl,value,later⟩ := alike
    rw [maskMembers,maskMembers,maskMembers_eq place place' rest rest' later covered.2]
    -- under a sensitive key both values are replaced by the same text
    by_cases sensitive : m.sensitive key = true
    · rw [if_pos sensitive,if_pos sensitive]
    · rw [maskValue_eq _ _ a b (value.resolve_left sensitive) (covered.1.resolve_left sensitive)]

lemma maskSlice_eq (place place' : Place) (i i' : Nat) :
    ∀ a b : List (Value S),AlikeItems m a b → CoveredItems m a → maskSlice m ranges place i a = maskSlice m ranges' place' i' b
  | [],[],_,_ => rfl
  | a :: rest,b :: rest',alike,covered => by
    obtain ⟨item,later⟩ := alike
    rw [maskSlice,maskSlice,maskSlice_eq place place' (i + 1) (i' + 1) rest rest' later covered.2]
    rw [maskValue_eq _ _ a b item covered.1]

end

mutual

lemma alike_replace : ∀ v : Value S,Alike m v (replace m v)
  | .text _ | .other _ => rfl
  | .map members | .typedMap members => alike_replaceMembers members
  | .slice items | .typedSlice items => alike_replaceItems items

lemma alike_replaceMembers : ∀ members : Members S,AlikeMembers m members (replaceMembers m members)
  | [] => trivial
  | (key,value) :: rest => by
    refine ⟨rfl,?_,alike_replaceMembers rest⟩
    by_cases sensitive : m.sensitive key = true
    · exact .inl sensitive
    · rw [if_neg sensitive]
      exact .inr (alike_replace value)

lemma alike_replaceItems : ∀ items : List (Value S),AlikeItems m items (replaceItems m items)
  | [] => trivial
  | item :: rest => ⟨alike_replace item,alike_replaceItems rest⟩

end

lemma slice_ne (v : Value S) : Value.slice [v] ≠ v := by
  intro same
  have sizes := congrArg sizeOf same
  simp only [Value.slice.sizeOf_spec,List.cons.sizeOf_spec] at sizes
  omega

mutual

lemma clean_of_replace : ∀ {v : Value S},replace m v = v → Clean m v
  | .text _,_ | .other _,_ => trivial
  | .map members,same | .typedMap members,same => clean_of_replaceMembers (by simpa [replace] using same)
  | .slice items,same | .typedSlice items,same => clean_of_replaceItems (by simpa [replace] using same)

lemma clean_of_replaceMembers : ∀ {members : Members S},replaceMembers m members = members → CleanMembers m members
  | [],_ => trivial
  | (key,value) :: rest,same => by
    rw [replaceMembers,List.cons.injEq,Prod.mk.injEq] at same
    obtain ⟨⟨-,head⟩,tail⟩ := same
    by_cases sensitive : m.sensitive key = true
    · rw [if_pos sensitive] at head
      exact absurd head (slice_ne value)
    · rw [if_neg sensitive] at head
      exact ⟨Bool.not_eq_true _ ▸ sensitive,clean_of_replace head,clean_of_replaceMembers tail⟩

lemma clean_of_replaceItems : ∀ {items : List (Value S)},replaceItems m items = items → CleanItems m items
  | [],_ => trivial
  | item :: rest,same => by
    rw [replaceItems,List.cons.injEq] at same
    exact ⟨clean_of_replace same.1,clean_of_replaceItems same.2⟩

end

lemma keys_replaceMembers (members : Members S) : keys (replaceMembers m members) = keys members :=
  (alike_replaceMembers members).keys_eq.symm

lemma find_masked {a b : Members S} {place place' : Place} {ranges ranges' : Ranges}
    (same : m.maskMap ranges place a = m.maskMap ranges' place' b) (alike : keys a = keys b) {key : String} (member : key ∈ keys a) :
    find key (maskMembers m ranges place a) = find key (maskMembers m ranges' place' b) := by
  have found := congrArg (find key) same
  rwa [Masker.maskMap,Masker.maskMap,find_fill _ ((ranges.perm place _).mem_iff.mpr member),
    find_fill _ ((ranges'.perm place' _).mem_iff.mpr (alike ▸ member))] at found

mutual

lemma covered_of_mask (place place' : Place) : ∀ {v : Value S},Distinct v →
    maskValue m ranges place v = maskValue m ranges' place' (replace m v) → Covered m v
  | .text _,_,_ | .other _,_,_ => trivial
  | .map members,distinct,same => by
    rw [replace,maskValue,maskValue,Value.map.injEq] at same
    exact coveredMembers_of_mask place place' distinct.1 distinct.2
      (fun key => find_masked same (keys_replaceMembers members).symm)
  | .slice items,distinct,same => by
    rw [replace,maskValue,maskValue,Value.slice.injEq] at same
    exact coveredItems_of_mask place place' 0 0 distinct same
  | .typedMap members,_,same => by
    rw [replace,maskValue,maskValue,Value.typedMap.injEq] at same
    exact clean_of_replaceMembers same.symm
  | .typedSlice items,_,same => by
    rw [replace,maskValue,maskValue,Value.typedSlice.injEq] at same
    exact clean_of_replaceItems same.symm

lemma coveredMembers_of_mask (place place' : Place) :
    ∀ {members : Members S},(keys members).Nodup → DistinctMembers members →
      (∀ key,key ∈ keys members → find key (maskMembers m ranges place members) =
        find key (maskMembers m ranges' place' (replaceMembers m members))) → CoveredMembers m members
  | [],_,_,_ => trivial
  | (key,value) :: rest,nodup,distinct,same => by
    obtain ⟨fresh,nodup'⟩ := List.nodup_cons.mp nodup
    have head := same key List.mem_cons_self
    rw [replaceMembers,maskMembers,maskMembers,find_cons,find_cons,if_pos rfl,if_pos rfl,Option.some_inj] at head
    refine ⟨?_,coveredMembers_of_mask place place' nodup' distinct.2 fun other member => ?_⟩
    · by_cases sensitive : m.sensitive key = true
      · exact .inl sensitive
      · rw [if_neg sensitive,if_neg sensitive,if_neg sensitive] at head
        exact .inr (covered_of_mask _ _ distinct.1 head)
    · have later := same other (List.mem_cons_of_mem _ member)
      have apart : key ≠ other := fun equal => fresh (equal ▸ member)
      rwa [replaceMembers,maskMembers,maskMembers,find_cons,find_cons,if_neg apart,if_neg apart] at later

lemma coveredItems_of_mask (place place' : Place) (i i' : Nat) :
    ∀ {items : List (Value S)},DistinctItems items →
      maskSlice m ranges place i items = maskSlice m ranges' place' i' (replaceItems m items) → CoveredItems m items
  | [],_,_ => trivial
  | item :: rest,distinct,same => by
    rw [replaceItems,maskSlice,maskSlice,List.cons.injEq] at same
    exact ⟨covered_of_mask _ _ distinct.1 same.1,
      coveredItems_of_mask place place' (i + 1) (i' + 1) distinct.2 same.2⟩

end

/-- The result shows nothing of what stands under sensitive keys, in whatever orders the maps
are ranged over, exactly if no map or slice of another type, outside such keys, holds one. -/
theorem maskMap_noninterference_iff (m : Masker) (ranges ranges' : Ranges) (a : List (String × Value S))
    (distinct : (keys a).Nodup ∧ DistinctMembers a) :
    (∀ b, AlikeMembers m a b → m.maskMap ranges [] a = m.maskMap ranges' [] b) ↔ CoveredMembers m a := by
  constructor
  · intro same
    have masked := same _ (alike_replaceMembers a)
    exact coveredMembers_of_mask ranges ranges' [] [] distinct.1 distinct.2
      (fun key => find_masked masked (keys_replaceMembers a).symm)
  · intro covered b alike
    exact maskMap_eq ranges ranges' alike.keys_eq (maskMembers_eq ranges ranges' [] [] a b alike covered)

def back : Ranges := ⟨fun _ keys => keys.reverse,fun _ keys => keys.reverse_perm⟩

def onward : Ranges := ⟨fun _ keys => keys,fun _ keys => .refl keys⟩

def login (secret : Value Bool) : List (String × Value Bool) :=
  [("attempts",.slice [.map [("ok",.other true),("token",secret)]]),("groups",.typedSlice [.text "staff"]),("user",.text "ada")]

theorem maskMap_noninterference_login :
    Masker.maskMap ⟨id,id⟩ back [] (login (.text "t0")) = Masker.maskMap ⟨id,id⟩ onward [] (login (.map [("a",.other false)])) := by
  refine (maskMap_noninterference_iff ⟨id,id⟩ back onward (login (.text "t0")) ?_).mpr ?_ _ ?_
  · simp [login,DistinctMembers,Distinct,DistinctItems,keys]
  · simp [login,CoveredMembers,Covered,CoveredItems,CleanItems,Clean,Masker.sensitive,sensitiveKeys]
  · simp [login,AlikeMembers,Alike,AlikeItems,Masker.sensitive,sensitiveKeys]

def request (secret : String) : List (String × Value Bool) := [("headers",.typedMap [("authorization",.text secret)])]

/-- The headers are a `map[string]string`, which is copied as it is. -/
theorem typed_headers_shown :
    AlikeMembers ⟨id,id⟩ (request "s") (request "t") ∧
      Masker.maskMap ⟨id,id⟩ onward [] (request "s") ≠ Masker.maskMap ⟨id,id⟩ onward [] (request "t") := by
  constructor
  · simp [request,AlikeMembers,Alike,Masker.sensitive,sensitiveKeys]
  · simp [request,Masker.maskMap,onward,fill,maskMembers,maskValue,keys,find,put,Masker.sensitive,sensitiveKeys]

end Tempest.Masking
