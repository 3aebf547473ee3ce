import Mathlib.Data.List.Infix
import Tempest.Json

/-! The range reads of `internal/blobstore`, in memory and on the file system. A read
answers with what its reader yields until the end; `stat` is what there is at a path. -/
namespace Tempest.Blobstore
open Deltadiff List

inductive Error
  | blobNotFound
  | invalidKey
  | invalidRange
  | system (text : String)
  deriving DecidableEq

def Error.text : Error → String
  | .blobNotFound => "blobstore: blob not found"
  | .invalidKey => "blobstore: invalid or empty key"
  | .invalidRange => "blobstore: invalid byte range"
  | .system text => text

inductive Answer
  | bytes (data : List UInt8)
  | failed (err : Error)
  | panicked
  deriving DecidableEq

/-- No slice of bytes is longer. -/
def maxAlloc : Nat := 281474976710656

structure MemBlob where
  data : List UInt8
  fits : data.length ≤ maxAlloc

structure File where
  data : List UInt8
  fits : data.length < 9223372036854775808

def outside (offset length total : Int64) : Bool :=
  offset < 0 || total < offset || length < 0 || total < offset + length

def slice (data : List UInt8) (lo hi : Int64) : Option (List UInt8) :=
  if 0 ≤ lo.toInt ∧ lo.toInt ≤ hi.toInt ∧ hi.toInt ≤ data.length then
    some ((data.take hi.toInt.toNat).drop lo.toInt.toNat) else none

def copied (n : Nat) (data : List UInt8) : List UInt8 := data.take n ++ List.replicate (n - data.length) 0

abbrev MemoryBackend := Str → Option MemBlob

def MemoryBackend.getRange (m : MemoryBackend) (key : Str) (offset length : Int64) : Answer :=
  match m key with
  | none => .failed .blobNotFound
  | some b =>
    if outside offset length (Int64.ofNat b.data.length) then .failed .invalidRange
    else if maxAlloc < length.toInt then .panicked
    else
      match slice b.data offset (offset + length) with
      | some sub => .bytes (copied length.toInt.toNat sub)
      | none => .panicked

def cleanElement (rooted : Bool) (out : List Str) (element : Str) : List Str :=
  if element = [] ∨ element = ['.'] then out
  else if element = ['.','.'] then
    match out with
    | [] => if rooted then [] else [element]
    | last :: rest => if last = element then element :: out else rest
  else element :: out

def clean (path : Str) : Str :=
  let rooted := path.head? = some '/'
  let body := ['/'].intercalate ((path.splitOn '/').foldl (cleanElement rooted) []).reverse
  if rooted then '/' :: body else if body = [] then ['.'] else body

def join (base key : Str) : Str :=
  if base = [] ∧ key = [] then [] else if base = [] then clean key else clean (base ++ '/' :: key)

/-- What is found at a path. A directory has a size and cannot be read. -/
inductive Entry
  | missing
  | unknown (text : String)
  | file (f : File)
  | directory (size : Int64) (text : String)

structure FSBackend where
  baseDir : Str
  stat : Str → Entry

def FSBackend.keyPath (f : FSBackend) (key : Str) : Str :=
  let path := clean key
  join f.baseDir (if path.head? = some '/' then path.tail else path)

def FSBackend.getRange (f : FSBackend) (key : Str) (offset length : Int64) : Answer :=
  if key = [] ∨ ['.','.'] <:+: key then .failed .invalidKey
  else
    match f.stat (f.keyPath key) with
    | .missing => .failed .blobNotFound
    | .unknown text => .failed (.system text)
    | .directory size text => .failed (if outside offset length size then .invalidRange else .system text)
    | .file opened =>
      if outside offset length (Int64.ofNat opened.data.length) then .failed .invalidRange
      else .bytes ((opened.data.drop offset.toInt.toNat).take length.toInt.toNat)

/-- The blob of a key that a put accepts. -/
def FSBackend.Holds (f : FSBackend) (key : Str) (blob : File) : Prop :=
  ¬ (key = [] ∨ ['.','.'] <:+: key) ∧ f.stat (f.keyPath key) = .file blob

def exactRange (data : List UInt8) (offset length : Int64) : Answer :=
  if 0 ≤ offset.toInt ∧ 0 ≤ length.toInt ∧ offset.toInt + length.toInt ≤ data.length then
    .bytes ((data.drop offset.toInt.toNat).take length.toInt.toNat)
  else .failed .invalidRange

/-- The end of the range is beyond the 64 bits, its beginning within the blob. -/
def Beyond (data : List UInt8) (offset length : Int64) : Prop :=
  0 ≤ offset.toInt ∧ offset.toInt ≤ data.length ∧ 9223372036854775808 ≤ offset.toInt + length.toInt

section Bounds
variable {data : List UInt8} (fits : data.length < 9223372036854775808) (offset length : Int64)
include fits

lemma outside_eq_false_iff : outside offset length (Int64.ofNat data.length) = false ↔
    0 ≤ offset.toInt ∧ 0 ≤ length.toInt ∧ offset.toInt + length.toInt ≤ data.length ∨ Beyond data offset length := by
  have high := Int64.toInt_lt offset
  have top := Int64.toInt_lt length
  simp only [outside,Beyond,Bool.or_eq_false_iff,decide_eq_false_iff_not,Int64.lt_iff_toInt_lt,Int64.toInt_add,
    Int64.toInt_zero,Int64.toInt_ofNat_of_lt fits,Int.bmod_def]
  omega

/-- Both backends test the range alike: what they then read decides. -/
theorem tested_iff {answer : Answer} (beyond : Beyond data offset length → answer ≠ .failed .invalidRange)
    (inside : 0 ≤ offset.toInt → 0 ≤ length.toInt → offset.toInt + length.toInt ≤ data.length →
      answer = .bytes ((data.drop offset.toInt.toNat).take length.toInt.toNat)) :
    (if outside offset length (Int64.ofNat data.length) then .failed .invalidRange else answer) =
      exactRange data offset length ↔ ¬ Beyond data offset length := by
  have tested := outside_eq_false_iff fits offset length
  unfold exactRange
  by_cases far : Beyond data offset length
  · rw [tested.mpr (.inr far),if_neg Bool.false_ne_true,if_neg (by unfold Beyond at far; omega)]
    exact iff_of_false (beyond far) (not_not_intro far)
  · refine iff_of_true ?_ far
    rw [or_iff_left far] at tested
    split_ifs with refused exact_ exact_
    · rw [tested.mpr exact_] at refused
      exact absurd refused Bool.false_ne_true
    · rfl
    · exact inside exact_.1 exact_.2.1 exact_.2.2
    · exact absurd (tested.mp (Bool.eq_false_iff.mpr refused)) exact_

end Bounds

lemma copied_slice {data : List UInt8} {offset length : Int64} (low : 0 ≤ offset.toInt) (positive : 0 ≤ length.toInt)
    (sum : (offset + length).toInt = offset.toInt + length.toInt) (inside : offset.toInt + length.toInt ≤ data.length) :
    (slice data offset (offset + length)).map (copied length.toInt.toNat) =
      some ((data.drop offset.toInt.toNat).take length.toInt.toNat) := by
  have end_ := Int.toNat_add low positive
  rw [slice,sum,if_pos (by omega),end_,drop_take,Nat.add_sub_cancel_left,Option.map_some,copied,take_take,Nat.min_self,
    length_take,length_drop,Nat.sub_eq_zero_of_le (by omega),replicate_zero,append_nil]

theorem getRange_exact_iff (m : MemoryBackend) (f : FSBackend) (key : Str) (offset length : Int64) :
    ((∀ b, m key = some b → m.getRange key offset length = exactRange b.data offset length) ↔
      ∀ b, m key = some b → ¬ Beyond b.data offset length) ∧
    ((∀ b, f.Holds key b → f.getRange key offset length = exactRange b.data offset length) ↔
      ∀ b, f.Holds key b → ¬ Beyond b.data offset length) := by
  have high := Int64.toInt_lt offset
  constructor
  · refine forall_congr' fun b => forall_congr' fun held => ?_
    have size := Int.ofNat_le.mpr b.fits
    have most : maxAlloc = 281474976710656 := rfl
    simp only [MemoryBackend.getRange,held]
    apply tested_iff (by omega)
    · intro far
      unfold Beyond at far
      rw [if_pos (by omega)]
      exact Answer.noConfusion
    · intro low positive inside
      have sum : (offset + length).toInt = offset.toInt + length.toInt := by
        rw [Int64.toInt_add,Int.bmod_def]
        omega
      obtain ⟨sub,found,same⟩ := Option.map_eq_some_iff.mp (copied_slice low positive sum inside)
      rw [if_neg (by omega),found]
      exact congrArg Answer.bytes same
  · refine forall_congr' fun b => forall_congr' fun held => ?_
    simp only [FSBackend.getRange,if_neg held.1,held.2]
    exact tested_iff b.fits offset length (fun _ => Answer.noConfusion) (fun _ _ _ => rfl)

def oneByte : MemBlob := ⟨[7],by decide⟩

theorem getRange_panics : MemoryBackend.getRange (fun _ => some oneByte) ['k'] 1 9223372036854775807 = .panicked ∧
    FSBackend.getRange ⟨[],fun _ => .file ⟨[7],by decide⟩⟩ ['k'] 1 9223372036854775807 = .bytes [] := by
  decide

end Tempest.Blobstore
