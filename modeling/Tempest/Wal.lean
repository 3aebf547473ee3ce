import Mathlib.Algebra.Ring.Int.Defs
import Mathlib.Algebra.Ring.Nat
import Mathlib.Data.List.TakeWhile
import Tempest.Types
import Tempest.Lib.Lines

/-! The write-ahead log of `internal/wal`. The file is opened for appending, so all
writes go to its end; they go through a buffer of `bufio`, and the file is read with a
scanner of `bufio`. The JSON text of an entry is given by a codec with the laws that
`encoding/json` has on objects: a text is read back, is one line, and is an object whose
opening brace is closed by its last byte only. -/
open List
namespace Tempest.Wal
open Lines

def newline : UInt8 := 10

def carriageReturn : UInt8 := 13

structure Entry where
  index : Int
  term : Int
  type : String
  data : List UInt8
  timestamp : Time
  deriving DecidableEq

structure Codec where
  marshal : Entry → List UInt8
  unmarshal : List UInt8 → Option Entry
  round : ∀ e, unmarshal (marshal e) = some e
  clean : ∀ e, newline ∉ marshal e
  ending : ∀ e, (marshal e).getLast? ≠ some carriageReturn
  torn : ∀ e part, part <+: marshal e → part ≠ marshal e → unmarshal part = none
  glued : ∀ e next part, part <+: marshal e → part ≠ [] → unmarshal (part ++ marshal next) = none

/-- A `bufio.Writer` over the file. -/
structure Writer where
  file : List UInt8 := []
  buffer : List UInt8 := []
  deriving DecidableEq

def defaultBufSize : Nat := 4096

namespace Writer

def available (w : Writer) : Nat := defaultBufSize - w.buffer.length

def flush (w : Writer) : Writer := ⟨w.file ++ w.buffer,[]⟩

def writeEmpty (file bytes : List UInt8) : Writer :=
  if bytes.length ≤ defaultBufSize then ⟨file,bytes⟩ else ⟨file ++ bytes,[]⟩

def write (w : Writer) (bytes : List UInt8) : Writer :=
  if bytes.length ≤ w.available then { w with buffer := w.buffer ++ bytes }
  else if w.buffer = [] then writeEmpty w.file bytes
  else writeEmpty (w.file ++ (w.buffer ++ bytes.take w.available)) (bytes.drop w.available)

def writeByte (w : Writer) (byte : UInt8) : Writer :=
  if w.available = 0 then ⟨w.file ++ w.buffer,[byte]⟩ else { w with buffer := w.buffer ++ [byte] }

end Writer

inductive ScanError
  | tooLong
  deriving DecidableEq

def ScanError.text : ScanError → String
  | .tooLong => "bufio.Scanner: token too long"

def maxScanTokenSize : Nat := 65536

def dropCR (line : List UInt8) : List UInt8 :=
  if line.getLast? = some carriageReturn then line.dropLast else line

/-- The lines that a scanner of the text delivers, and the error with which it stops: a
line and its end have to fit into the buffer of the scanner. -/
def scan (text : List UInt8) : List (List UInt8) × Option ScanError :=
  let lines := split newline text
  let fits := fun line : List UInt8 => decide (line.length < maxScanTokenSize)
  ((lines.takeWhile fits).map dropCR,if lines.all fits then none else some .tooLong)

structure WAL where
  writer : Writer := {}
  index : Int := 0
  syncEvery : Int
  /-- How much of the file the last `Sync` has made durable. -/
  synced : Nat := 0
  deriving DecidableEq

def wrap (n : Int) : Int := n.bmod (2 ^ 64)

namespace WAL

variable (codec : Codec)

def decode (text : List UInt8) : List Entry × Option ScanError :=
  ((scan text).1.filterMap codec.unmarshal,(scan text).2)

def replay (entries : List Entry) : Int :=
  entries.foldl (fun maxIndex e => if maxIndex < e.index then e.index else maxIndex) 0

def openFile (text : List UInt8) (syncEvery : Int) : Except ScanError WAL :=
  match decode codec text with
  | (_,some err) => .error err
  | (entries,none) => .ok { writer := ⟨text,[]⟩, index := replay entries, syncEvery, synced := text.length }

def stamp (w : WAL) (entry : Entry) (now : Time) : Entry := { entry with index := wrap (w.index + 1), timestamp := now }

def put (writer : Writer) (e : Entry) : Writer := (writer.write (codec.marshal e)).writeByte newline

def append (w : WAL) (entry : Entry) (now : Time) : WAL :=
  let e := w.stamp entry now
  let writer := put codec w.writer e
  if 0 < w.syncEvery ∧ e.index.tmod w.syncEvery = 0 then
    { w with index := e.index, writer := writer.flush, synced := writer.flush.file.length }
  else { w with index := e.index, writer }

def readAll (w : WAL) : List Entry × Option ScanError := decode codec w.writer.file

def lastIndex (w : WAL) : Int := w.index

def close (w : WAL) : List UInt8 := w.writer.flush.file

def truncate (w : WAL) (afterIndex : Int) : Option ScanError × WAL :=
  match w.readAll codec with
  | (_,some err) => (some err,w)
  | (entries,none) =>
    let keep := entries.filter (fun e => e.index ≤ afterIndex)
    (none,{ w with
      writer := (keep.foldl (put codec) {}).flush
      index := keep.foldl (fun _ e => e.index) 0
      synced := 0 })

end WAL

variable (w : Writer)

namespace Writer

def content (w : Writer) : List UInt8 := w.file ++ w.buffer

lemma writeEmpty_content (file bytes : List UInt8) : (writeEmpty file bytes).content = file ++ bytes := by
  rw [writeEmpty]
  split_ifs
  · rfl
  · exact append_nil _

lemma write_content (bytes : List UInt8) : (w.write bytes).content = w.content ++ bytes := by
  rw [write]
  split_ifs with fits empty
  · exact (append_assoc _ _ _).symm
  · rw [writeEmpty_content,content,empty,append_nil]
  · rw [writeEmpty_content,content,append_assoc,append_assoc,take_append_drop,← append_assoc]

lemma writeByte_content (byte : UInt8) : (w.writeByte byte).content = w.content ++ [byte] := by
  rw [writeByte]
  split_ifs
  · rfl
  · exact (append_assoc _ _ _).symm

lemma flush_content : w.flush.content = w.content := append_nil _

end Writer

variable {codec : Codec}

def encode (codec : Codec) (entries : List Entry) : List UInt8 := join newline (entries.map codec.marshal)

lemma encode_append (first second : List Entry) :
    encode codec (first ++ second) = encode codec first ++ encode codec second := by
  rw [encode,map_append,join_append]
  rfl

lemma put_content (e : Entry) : (WAL.put codec w e).content = w.content ++ encode codec [e] := by
  rw [WAL.put,Writer.writeByte_content,Writer.write_content]
  simp [encode,join]

lemma puts_content (entries : List Entry) (w : Writer) :
    (entries.foldl (WAL.put codec) w).content = w.content ++ encode codec entries := by
  induction entries generalizing w with
  | nil => exact (append_nil _).symm
  | cons e rest ih =>
    rw [foldl_cons,ih,put_content,append_assoc,← encode_append]
    rfl

section

variable {e : Entry} {part : List UInt8}

lemma marshal_ne_nil (codec : Codec) (e : Entry) : codec.marshal e ≠ [] := by
  intro empty
  have first := codec.round e
  have second := codec.round { e with index := e.index + 1 }
  rw [empty] at first
  by_cases same : [] = codec.marshal { e with index := e.index + 1 }
  · rw [← same,first] at second
    have indices := congrArg Entry.index (Option.some.inj second)
    dsimp only at indices
    omega
  · cases first.symm.trans (codec.torn _ [] nil_prefix same)

lemma dropCR_initial (line : List UInt8) : dropCR line <+: line := by
  rw [dropCR]
  split_ifs
  · exact dropLast_prefix line
  · exact prefix_rfl

lemma dropCR_marshal : dropCR (codec.marshal e) = codec.marshal e := if_neg (codec.ending e)

lemma unmarshal_torn (early : part <+: codec.marshal e) (proper : part ≠ codec.marshal e) :
    codec.unmarshal (dropCR part) = none := by
  apply codec.torn e _ ((dropCR_initial part).trans early)
  intro same
  apply proper
  apply List.IsPrefix.eq_of_length_le early
  rw [← same]
  exact (dropCR_initial part).length_le

lemma unmarshal_glued {next : Entry} (early : part <+: codec.marshal e) (proper : part ≠ []) :
    codec.unmarshal (dropCR (part ++ codec.marshal next)) = none := by
  have ending : (part ++ codec.marshal next).getLast? ≠ some carriageReturn := by
    rw [getLast?_append_of_ne_nil _ (marshal_ne_nil codec next)]
    exact codec.ending next
  rw [dropCR,if_neg ending]
  exact codec.glued e next part early proper

end

def parse (codec : Codec) (lines : List (List UInt8)) : List Entry :=
  lines.filterMap (fun line => codec.unmarshal (dropCR line))

lemma parse_marshal (entries : List Entry) : parse codec (entries.map codec.marshal) = entries := by
  rw [parse,filterMap_map]
  have each : (fun line => codec.unmarshal (dropCR line)) ∘ codec.marshal = some := by
    funext e
    rw [Function.comp_apply,dropCR_marshal,codec.round]
  rw [each,filterMap_some]

lemma parse_append (first second : List (List UInt8)) :
    parse codec (first ++ second) = parse codec first ++ parse codec second := filterMap_append

def Scannable (text : List UInt8) : Prop := ∀ line ∈ split newline text, line.length < maxScanTokenSize

variable {text : List UInt8} {entries : List Entry}

lemma decode_scannable (fits : Scannable text) :
    WAL.decode codec text = (parse codec (split newline text),none) := by
  have all : (split newline text).all (fun line => decide (line.length < maxScanTokenSize)) = true := by
    rw [all_eq_true]
    intro line member
    exact decide_eq_true (fits line member)
  rw [WAL.decode,scan]
  simp only [all,if_true,filterMap_map]
  rw [takeWhile_eq_self_iff.mpr (all_eq_true.mp all)]
  rfl

lemma decode_fails (long : ¬ Scannable text) : (WAL.decode codec text).2 = some .tooLong := by
  have some : ¬ (split newline text).all (fun line => decide (line.length < maxScanTokenSize)) = true := by
    intro all
    apply long
    intro line member
    exact of_decide_eq_true (all_eq_true.mp all line member)
  exact if_neg some

lemma clean_lines (codec : Codec) (entries : List Entry) : ∀ line ∈ entries.map codec.marshal,newline ∉ line := by
  intro line member
  obtain ⟨e,-,rfl⟩ := mem_map.mp member
  exact codec.clean e

lemma proper_lines (codec : Codec) (entries : List Entry) : ∀ line ∈ entries.map codec.marshal,line ≠ [] := by
  intro line member
  obtain ⟨e,-,rfl⟩ := mem_map.mp member
  exact marshal_ne_nil codec e

def contained (codec : Codec) (entries : List Entry) (size : Nat) : List Entry :=
  entries.take (whole (entries.map codec.marshal) size)

lemma parse_take (entries : List Entry) (size : Nat) :
    parse codec (split newline ((encode codec entries).take size)) = contained codec entries size := by
  obtain ⟨torn,parts,cut⟩ := split_take (clean_lines codec entries) (proper_lines codec entries) size
  have nothing : parse codec torn = [] := by
    rcases cut with rfl | ⟨line,member,part,rfl,early,proper⟩
    · rfl
    · obtain ⟨e,-,rfl⟩ := mem_map.mp member
      simp [parse,unmarshal_torn early proper]
  rw [encode,parts,parse_append,nothing,append_nil,← map_take,parse_marshal]
  rfl

lemma scannable_take (fits : ∀ e ∈ entries,(codec.marshal e).length < maxScanTokenSize)
    (size : Nat) : Scannable ((encode codec entries).take size) := by
  have each : ∀ line ∈ entries.map codec.marshal,line.length < maxScanTokenSize := by
    intro line member
    obtain ⟨e,listed,rfl⟩ := mem_map.mp member
    exact fits e listed
  obtain ⟨torn,parts,cut⟩ := split_take (clean_lines codec entries) (proper_lines codec entries) size
  intro line member
  rw [encode,parts,mem_append] at member
  rcases member with kept | left
  · exact each line (mem_of_mem_take kept)
  · rcases cut with rfl | ⟨full,listed,part,rfl,early,-⟩
    · cases left
    · rw [mem_singleton.mp left]
      exact Nat.lt_of_le_of_lt early.length_le (each full listed)

lemma decode_take (fits : ∀ e ∈ entries,(codec.marshal e).length < maxScanTokenSize)
    (size : Nat) : WAL.decode codec ((encode codec entries).take size) = (contained codec entries size,none) := by
  rw [decode_scannable (scannable_take fits size),parse_take]

lemma le_contained {kept rest : List Entry} {size : Nat} (inside : (encode codec kept).length ≤ size + 1) :
    kept <+: contained codec (kept ++ rest) size := by
  have lines : ((kept ++ rest).map codec.marshal).take kept.length = kept.map codec.marshal := by
    rw [← map_take,take_left']
    rfl
  have bytes : (join newline (((kept ++ rest).map codec.marshal).take kept.length)).length ≤ size + 1 := by
    rw [lines]
    exact inside
  have enough := le_whole (by simp) bytes
  rw [contained,take_append,take_of_length_le enough]
  exact prefix_append _ _

lemma decode_encode (fits : ∀ e ∈ entries,(codec.marshal e).length < maxScanTokenSize) :
    WAL.decode codec (encode codec entries) = (entries,none) := by
  have all := decode_take fits (encode codec entries).length
  have early : entries <+: contained codec (entries ++ []) (encode codec entries).length := le_contained (Nat.le_succ _)
  rw [append_nil] at early
  rw [take_length] at all
  have same := early.eq_of_length_le (length_take_le' _ _)
  rw [all,← same]

lemma wrap_of_lt {n : Int} (positive : 0 ≤ n) (small : n < 2 ^ 63) : wrap n = n := by
  have size : ((2 ^ 64 : Nat) : Int) = 18446744073709551616 := rfl
  apply Int.bmod_eq_of_le
  all_goals
    rw [size]
    omega

end Tempest.Wal
