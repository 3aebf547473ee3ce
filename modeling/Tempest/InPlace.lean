import Tempest.Patch
import Tempest.Lib.Heaps

/-! The application of a patch as it happens in memory. Maps and slices are references, so
the operations change the caller's document, and what they changed before a failure stays
changed. -/
namespace Tempest.Deltadiff.InPlace
open Association Heaps

inductive Scalar
  | null
  | bool (b : Bool)
  | num (n : Int)
  | str (s : Str)
  deriving DecidableEq

abbrev Any := Ref Scalar

abbrev Memory := Heap Str Scalar

def nil : Any := .scalar .null

structure PatchOperation where
  op : OpType
  path : Str
  fromPath : Str := []
  value : Any := nil
  deriving DecidableEq

abbrev Patch := List PatchOperation

/-- An error, or the panic of an index that is out of range. -/
inductive Failure
  | refused (cause : PatchError)
  | testFailed (path : Str) (expected got : Any)
  | panicked
  deriving DecidableEq

abbrev Outcome := Except Failure Any × Memory

def child (h : Memory) : Any → Str → Except PatchError Any
  | .map addr,tok => (find tok (h.members addr)).elim (.error (.keyMissing tok)) .ok
  | .slice s,tok => ((index tok s.len).bind (fun i => (h.items s)[i]?)).elim (.error (.invalidIndex tok)) .ok
  | .scalar _,_ => .error .intoPrimitive

def getValue (h : Memory) : Any → List Str → Except PatchError Any
  | node,[] => .ok node
  | node,tok :: rest => child h node tok >>= fun next => getValue h next rest

def updateSliceInParent (h : Memory) (root : Any) (parentTokens : List Str) (newSlice : Slice) : Outcome :=
  match parentTokens.getLast? with
  | none => (.ok (.slice newSlice),h)
  | some parentKey =>
    match getValue h root parentTokens.dropLast with
    | .error e => (.error (.refused e),h)
    | .ok (.map addr) => (.ok root,h.setMap addr (put parentKey (.slice newSlice) (h.members addr)))
    | .ok (.slice s) =>
      match atoi parentKey with
      | none => (.error (.refused (.notANumber parentKey)),h)
      | some i =>
        if 0 ≤ i ∧ i < s.len then (.ok root,h.write s.array (s.start + i.toNat) [.slice newSlice])
        else (.error .panicked,h)
    | .ok (.scalar _) => (.error (.refused .grandparent),h)

def rootOf (h : Memory) (target : Any) : Any × Memory := if target = nil then h.newMap else (target,h)

def addValue (spare : Nat → Nat) (h : Memory) (target : Any) (tokens : List Str) (val : Any) : Outcome :=
  match tokens.getLast? with
  | none => (.ok val,h)
  | some lastToken =>
    let (target,h) := rootOf h target
    match getValue h target tokens.dropLast with
    | .error e => (.error (.refused e),h)
    | .ok (.map addr) => (.ok target,h.setMap addr (put lastToken val (h.members addr)))
    | .ok (.slice s) =>
      if lastToken = ['-'] then
        let (newSlice,h) := h.append (List.replicate (spare (s.len + 1)) nil) s val
        updateSliceInParent h target tokens.dropLast newSlice
      else
        match index lastToken (s.len + 1) with
        | none => (.error (.refused (.insertRange lastToken)),h)
        | some i =>
          let (newSlice,h) := h.newSlice ((h.items s).take i ++ val :: (h.items s).drop i) []
          updateSliceInParent h target tokens.dropLast newSlice
    | .ok (.scalar _) => (.error (.refused .addNonContainer),h)

def removeValue (h : Memory) (target : Any) (tokens : List Str) : Outcome :=
  match tokens.getLast? with
  | none => (.ok nil,h)
  | some lastToken =>
    match getValue h target tokens.dropLast with
    | .error e => (.error (.refused e),h)
    | .ok (.map addr) =>
      if find lastToken (h.members addr) = none then (.error (.refused (.removeMissing lastToken)),h)
      else (.ok target,h.setMap addr (erase lastToken (h.members addr)))
    | .ok (.slice s) =>
      match index lastToken s.len with
      | none => (.error (.refused (.removeRange lastToken)),h)
      | some i =>
        let (newSlice,h) := h.removeAt s i
        updateSliceInParent h target tokens.dropLast newSlice
    | .ok (.scalar _) => (.error (.refused .removeNonContainer),h)

/-- `reflect.DeepEqual` to the given depth. The source compares a pair of references that it
has met before no further, so of values that contain themselves it finds those equal that
differ at no depth. -/
def deepEqual (h : Memory) : Nat → Any → Any → Bool
  | 0,_,_ => true
  | _ + 1,.scalar a,.scalar b => a = b
  | depth + 1,.map a,.map b =>
    (h.members a).length = (h.members b).length &&
      (h.members a).all (fun (k,x) => (find k (h.members b)).elim false (deepEqual h depth x))
  | depth + 1,.slice s,.slice t =>
    s.len = t.len && ((h.items s).zip (h.items t)).all (fun (x,y) => deepEqual h depth x y)
  | _ + 1,_,_ => false

def andThen (first : Outcome) (next : Any → Memory → Outcome) : Outcome :=
  match first with
  | (.ok value,h) => next value h
  | (.error e,h) => (.error e,h)

def applyOperation (spare : Nat → Nat) (depth : Nat) (h : Memory) (target : Any) (op : PatchOperation) : Outcome :=
  match parsePointer op.path with
  | .error e => (.error (.refused e),h)
  | .ok tokens =>
    match op.op with
    | .test =>
      match getValue h target tokens with
      | .error e => (.error (.refused e),h)
      | .ok val =>
        if deepEqual h depth val op.value then (.ok target,h) else (.error (.testFailed op.path op.value val),h)
    | .add => addValue spare h target tokens op.value
    | .remove => removeValue h target tokens
    | .replace => andThen (removeValue h target tokens) (fun t h => addValue spare h t tokens op.value)
    | .copy =>
      match parsePointer op.fromPath with
      | .error e => (.error (.refused e),h)
      | .ok fromTokens =>
        match getValue h target fromTokens with
        | .error e => (.error (.refused e),h)
        | .ok val => addValue spare h target tokens val
    | .move =>
      match parsePointer op.fromPath with
      | .error e => (.error (.refused e),h)
      | .ok fromTokens =>
        match getValue h target fromTokens with
        | .error e => (.error (.refused e),h)
        | .ok val => andThen (removeValue h target fromTokens) (fun t h => addValue spare h t tokens val)
    | .other name => (.error (.refused (.unknownOp name)),h)

/-- The cause of a failure together with the operation that failed and its position. -/
structure ApplyError where
  index : Nat
  op : OpType
  path : Str
  cause : Failure
  deriving DecidableEq

def applyFrom (spare : Nat → Nat) (depth : Nat) (i : Nat) (h : Memory) (current : Any) :
    Patch → Except ApplyError Any × Memory
  | [] => (.ok current,h)
  | op :: rest =>
    match applyOperation spare depth h current op with
    | (.ok next,h) => applyFrom spare depth (i + 1) h next rest
    | (.error cause,h) => (.error ⟨i,op.op,op.path,cause⟩,h)

def apply (spare : Nat → Nat) (depth : Nat) (h : Memory) (target : Any) (patch : Patch) :
    Except ApplyError Any × Memory := applyFrom spare depth 0 h target patch

end Tempest.Deltadiff.InPlace
