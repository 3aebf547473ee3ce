import Mathlib.Data.List.Lex
import Mathlib.Data.Char
import Tempest.Lib.Association

/-! The values that JSON is decoded into. An object is a map, so its members are kept in
the order of their keys: two well-formed values are equal exactly if they are deeply equal
as maps and slices. -/
namespace Tempest.Deltadiff
open Association

abbrev Str := List Char

inductive Json
  | null
  | bool (value : Bool)
  | num (value : Int)
  | str (value : Str)
  | arr (items : List Json)
  | obj (members : List (Str × Json))

namespace Json

mutual

def deepEqual : Json → Json → Bool
  | .null, .null => true
  | .bool a, .bool b => a = b
  | .num a, .num b => a = b
  | .str a, .str b => a = b
  | .arr a, .arr b => itemsEqual a b
  | .obj a, .obj b => membersEqual a b
  | _, _ => false

def itemsEqual : List Json → List Json → Bool
  | [], [] => true
  | x :: xs, y :: ys => x.deepEqual y && itemsEqual xs ys
  | _, _ => false

def membersEqual : List (Str × Json) → List (Str × Json) → Bool
  | [], [] => true
  | (k,x) :: xs, (l,y) :: ys => k = l && x.deepEqual y && membersEqual xs ys
  | _, _ => false

end

mutual

lemma deepEqual_iff : ∀ a b : Json, a.deepEqual b = true ↔ a = b
  | .null, b | .bool _, b | .num _, b | .str _, b => by cases b <;> simp [deepEqual]
  | .arr xs, b => by
    cases b with
    | arr ys => rw [deepEqual,itemsEqual_iff xs ys,arr.injEq]
    | _ => simp [deepEqual]
  | .obj xs, b => by
    cases b with
    | obj ys => rw [deepEqual,membersEqual_iff xs ys,obj.injEq]
    | _ => simp [deepEqual]

lemma itemsEqual_iff : ∀ xs ys : List Json, itemsEqual xs ys = true ↔ xs = ys
  | [], ys => by cases ys <;> simp [itemsEqual]
  | x :: xs, [] => by simp [itemsEqual]
  | x :: xs, y :: ys => by
    rw [itemsEqual,Bool.and_eq_true,deepEqual_iff x y,itemsEqual_iff xs ys,List.cons.injEq]

lemma membersEqual_iff : ∀ xs ys : List (Str × Json), membersEqual xs ys = true ↔ xs = ys
  | [], ys => by cases ys <;> simp [membersEqual]
  | (k,x) :: xs, [] => by simp [membersEqual]
  | (k,x) :: xs, (l,y) :: ys => by
    rw [membersEqual,Bool.and_eq_true,Bool.and_eq_true,decide_eq_true_iff,deepEqual_iff x y,membersEqual_iff xs ys,
      List.cons.injEq,Prod.mk.injEq]

end

instance : DecidableEq Json := fun a b => decidable_of_iff _ (deepEqual_iff a b)

inductive WellFormed : Json → Prop
  | null : WellFormed .null
  | bool (value : Bool) : WellFormed (.bool value)
  | num (value : Int) : WellFormed (.num value)
  | str (value : Str) : WellFormed (.str value)
  | arr (items : List Json) (inner : ∀ j ∈ items, WellFormed j) : WellFormed (.arr items)
  | obj (members : List (Str × Json)) (sorted : Sorted members) (inner : ∀ m ∈ members, WellFormed m.2) :
    WellFormed (.obj members)

end Json

abbrev Value := {j : Json // j.WellFormed}

end Tempest.Deltadiff
