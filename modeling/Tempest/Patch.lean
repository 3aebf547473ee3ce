import Tempest.Json

/-! Patches and their application. A value is changed in place along the tokens of a
pointer; as no part of it is reachable in two ways, this is the value with the part that
the tokens lead to replaced. -/
namespace Tempest.Deltadiff
open Association

inductive OpType
  | add
  | remove
  | replace
  | move
  | copy
  | test
  | other (name : Str)
  deriving DecidableEq

def OpType.text : OpType → String
  | .add => "add"
  | .remove => "remove"
  | .replace => "replace"
  | .move => "move"
  | .copy => "copy"
  | .test => "test"
  | .other name => String.ofList name

structure PatchOperation where
  op : OpType
  path : Str
  fromPath : Str := []
  value : Json := .null
  deriving DecidableEq

abbrev Patch := List PatchOperation

inductive PatchError
  | invalidPointer (ptr : Str)
  | keyMissing (key : Str)
  | invalidIndex (tok : Str)
  | intoPrimitive
  | insertRange (tok : Str)
  | addNonContainer
  | removeMissing (key : Str)
  | removeRange (tok : Str)
  | removeNonContainer
  | testFailed (path : Str) (expected got : Json)
  | unknownOp (name : Str)
  | notANumber (tok : Str)
  | grandparent
  deriving DecidableEq

def errInvalidPointer : String := "deltadiff: invalid JSON pointer syntax"

def errPathNotFound : String := "deltadiff: path not found in target structure"

def errPatchFailed : String := "deltadiff: patch operation failed"

def errTestFailed : String := "deltadiff: patch test operation failed condition"

/-- The text of an error, with the quoted form of a string and the printed form of a value
as `fmt` writes them. -/
def PatchError.text (quote : Str → String) (print : Json → String) : PatchError → String
  | .invalidPointer ptr => errInvalidPointer ++ ": pointer " ++ quote ptr ++ " must start with '/'"
  | .keyMissing key => errPathNotFound ++ ": key " ++ quote key
  | .invalidIndex tok => errPathNotFound ++ ": invalid array index " ++ quote tok
  | .intoPrimitive => errPathNotFound ++ ": cannot traverse into primitive"
  | .insertRange tok => errPatchFailed ++ ": array insert index " ++ quote tok ++ " out of range"
  | .addNonContainer => errPatchFailed ++ ": cannot add to non-container"
  | .removeMissing key => errPathNotFound ++ ": key " ++ quote key ++ " not found"
  | .removeRange tok => errPathNotFound ++ ": remove index " ++ quote tok ++ " out of range"
  | .removeNonContainer => errPatchFailed ++ ": cannot remove from non-container"
  | .testFailed path expected got =>
    errTestFailed ++ ": at " ++ String.ofList path ++ " expected " ++ print expected ++ ", got " ++ print got
  | .unknownOp name => errPatchFailed ++ ": unknown op " ++ quote name
  | .notANumber tok => "strconv.Atoi: parsing " ++ quote tok ++ ": invalid syntax"
  | .grandparent => "unexpected grandparent type"

/-- The cause of a failure together with the operation that failed and its position. -/
structure ApplyError where
  index : Nat
  op : OpType
  path : Str
  cause : PatchError
  deriving DecidableEq

def ApplyError.text (quote : Str → String) (print : Json → String) (e : ApplyError) : String :=
  "patch failed at operation " ++ toString e.index ++ " (" ++ e.op.text ++ " " ++ String.ofList e.path ++ "): " ++
    e.cause.text quote print

def replacePair (first second new : Char) : Str → Str
  | a :: b :: rest =>
    if a = first ∧ b = second then new :: replacePair first second new rest
    else a :: replacePair first second new (b :: rest)
  | rest => rest

def unescape (tok : Str) : Str := replacePair '~' '0' '~' (replacePair '~' '1' '/' tok)

def parsePointer : Str → Except PatchError (List Str)
  | [] => .ok []
  | '/' :: rest => .ok ((rest.splitOn '/').map unescape)
  | ptr => .error (.invalidPointer ptr)

def digits (text : Str) : Option Nat :=
  if text ≠ [] ∧ text.all Char.isDigit then some (Nat.ofDigitChars 10 text 0) else none

/-- `strconv.Atoi`. A number that is out of range is not told apart from one that is too
large for any slice. -/
def atoi : Str → Option Int
  | '-' :: text => (digits text).map (fun n => - (n : Int))
  | '+' :: text => (digits text).map Int.ofNat
  | text => (digits text).map Int.ofNat

def index (tok : Str) (bound : Nat) : Option Nat :=
  match atoi tok with
  | some i => if 0 ≤ i ∧ i < bound then some i.toNat else none
  | none => none

def child : Json → Str → Except PatchError Json
  | .obj members, tok => (find tok members).elim (.error (.keyMissing tok)) .ok
  | .arr items, tok => ((index tok items.length).bind (fun i => items[i]?)).elim (.error (.invalidIndex tok)) .ok
  | _, _ => .error .intoPrimitive

def getValue : Json → List Str → Except PatchError Json
  | node, [] => .ok node
  | node, tok :: rest => child node tok >>= fun next => getValue next rest

def setChild : Json → Str → Json → Json
  | .obj members, tok, value => .obj (put tok value members)
  | .arr items, tok, value =>
    match index tok items.length with
    | some i => .arr (items.set i value)
    | none => .arr items
  | node, _, _ => node

def assign : Json → List Str → Json → Json
  | _, [], new => new
  | node, tok :: rest, new =>
    match child node tok with
    | .ok next => setChild node tok (assign next rest new)
    | .error _ => node

lemma ok_of_bind {ε α β : Type} {first : Except ε α} {next : α → Except ε β} {result : β}
    (ok : first >>= next = .ok result) : ∃ middle,first = .ok middle ∧ next middle = .ok result := by
  cases first with
  | error e => cases ok
  | ok middle => exact ⟨middle,rfl,ok⟩

def updateSliceInParent (root : Json) (parentTokens : List Str) (newSlice : List Json) : Except PatchError Json :=
  match parentTokens.getLast? with
  | none => .ok (.arr newSlice)
  | some parentKey => do
    match ← getValue root parentTokens.dropLast with
    | .obj members => .ok (assign root parentTokens.dropLast (.obj (put parentKey (.arr newSlice) members)))
    | .arr items =>
      match atoi parentKey with
      | some i => .ok (assign root parentTokens.dropLast (.arr (items.set i.toNat (.arr newSlice))))
      | none => .error (.notANumber parentKey)
    | _ => .error .grandparent

def addValue (target : Json) (tokens : List Str) (value : Json) : Except PatchError Json :=
  match tokens.getLast? with
  | none => .ok value
  | some last => do
    let root := if target = .null then .obj [] else target
    match ← getValue root tokens.dropLast with
    | .obj members => .ok (assign root tokens.dropLast (.obj (put last value members)))
    | .arr items =>
      if last = ['-'] then updateSliceInParent root tokens.dropLast (items ++ [value])
      else
        match index last (items.length + 1) with
        | some i => updateSliceInParent root tokens.dropLast (items.take i ++ value :: items.drop i)
        | none => .error (.insertRange last)
    | _ => .error .addNonContainer

def removeValue (target : Json) (tokens : List Str) : Except PatchError Json :=
  match tokens.getLast? with
  | none => .ok .null
  | some last => do
    match ← getValue target tokens.dropLast with
    | .obj members =>
      if find last members = none then .error (.removeMissing last)
      else .ok (assign target tokens.dropLast (.obj (erase last members)))
    | .arr items =>
      match index last items.length with
      | some i => updateSliceInParent target tokens.dropLast (items.take i ++ items.drop (i + 1))
      | none => .error (.removeRange last)
    | _ => .error .removeNonContainer

def replaceValue (target : Json) (tokens : List Str) (value : Json) : Except PatchError Json := do
  addValue (← removeValue target tokens) tokens value

def applyOperation (target : Json) (op : PatchOperation) : Except PatchError Json := do
  let tokens ← parsePointer op.path
  match op.op with
  | .test =>
    let found ← getValue target tokens
    if found = op.value then .ok target else .error (.testFailed op.path op.value found)
  | .add => addValue target tokens op.value
  | .remove => removeValue target tokens
  | .replace => replaceValue target tokens op.value
  | .copy =>
    let found ← getValue target (← parsePointer op.fromPath)
    addValue target tokens found
  | .move =>
    let source ← parsePointer op.fromPath
    let found ← getValue target source
    addValue (← removeValue target source) tokens found
  | .other name => .error (.unknownOp name)

def applyFrom (i : Nat) (current : Json) : Patch → Except ApplyError Json
  | [] => .ok current
  | op :: rest =>
    match applyOperation current op with
    | .ok next => applyFrom (i + 1) next rest
    | .error cause => .error ⟨i,op.op,op.path,cause⟩

def apply (target : Json) (patch : Patch) : Except ApplyError Json := applyFrom 0 target patch

example : apply (.obj [(['a'],.arr [.num 1,.num 2])]) [⟨.replace,['/','a','/','1'],[],.num 7⟩] =
    .ok (.obj [(['a'],.arr [.num 1,.num 7])]) := by decide +kernel

end Tempest.Deltadiff
