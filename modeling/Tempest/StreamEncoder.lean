import Tempest.Lib.JsonText

/-! The streaming JSON encoder. Strings are bytes, as in the source. The stack of flags is
kept with the innermost container first. -/
open List
namespace Tempest.Fastjson
open JsonText (Value compact moreItems moreMembers)

def utf8 (text : List Char) : List UInt8 := text.flatMap String.utf8EncodeChar

structure StreamEncoder where
  buf : List UInt8
  needComma : List Bool
  deriving DecidableEq

def newStreamEncoder (buf : List UInt8) : StreamEncoder := ⟨buf,[]⟩

def hexChars : List Char := ['0','1','2','3','4','5','6','7','8','9','a','b','c','d','e','f']

def escapeByte (b : UInt8) : List UInt8 :=
  if b = 0x5c then utf8 ['\\','\\']
  else if b = 0x22 then utf8 ['\\','"']
  else if b = 0x0a then utf8 ['\\','n']
  else if b = 0x0d then utf8 ['\\','r']
  else if b = 0x09 then utf8 ['\\','t']
  else if b = 0x08 then utf8 ['\\','b']
  else if b = 0x0c then utf8 ['\\','f']
  else utf8 ['\\','u','0','0'] ++
    utf8 [hexChars.getD (b >>> 4).toNat '0'] ++ utf8 [hexChars.getD (b &&& 0xF).toNat '0']

def plain (b : UInt8) : Bool := 0x20 ≤ b && b != 0x5c && b != 0x22

/-- One round of the loop over a string: the buffer and the start of the chunk that is not
yet written. -/
def escapeRound (s : List UInt8) (state : List UInt8 × Nat) (i : Nat) : List UInt8 × Nat :=
  match s[i]? with
  | none => state
  | some b =>
    if plain b then state
    else
      let buf := if i > state.2 then state.1 ++ (s.take i).drop state.2 else state.1
      (buf ++ escapeByte b,i + 1)

def escapeString (buf s : List UInt8) : List UInt8 :=
  let (buf,start) := (List.range s.length).foldl (escapeRound s) (buf,0)
  if start < s.length then buf ++ s.drop start else buf

namespace StreamEncoder

def append (e : StreamEncoder) (bytes : List UInt8) : StreamEncoder := { e with buf := e.buf ++ bytes }

def writeSeparator (e : StreamEncoder) : StreamEncoder :=
  if e.needComma.head? = some true then e.append (utf8 [',']) else e

def setNeedComma (e : StreamEncoder) (flag : Bool) : StreamEncoder :=
  match e.needComma with
  | [] => e
  | _ :: outer => { e with needComma := flag :: outer }

def beginScope (e : StreamEncoder) (bracket : Char) : StreamEncoder :=
  let e := e.writeSeparator.append (utf8 [bracket])
  { e with needComma := false :: e.needComma }

def endScope (e : StreamEncoder) (bracket : Char) : StreamEncoder :=
  let e := { e with needComma := e.needComma.tail }
  (e.append (utf8 [bracket])).setNeedComma true

def beginObject (e : StreamEncoder) : StreamEncoder := e.beginScope '\x7b'

def endObject (e : StreamEncoder) : StreamEncoder := e.endScope '\x7d'

def beginArray (e : StreamEncoder) : StreamEncoder := e.beginScope '['

def endArray (e : StreamEncoder) : StreamEncoder := e.endScope ']'

def key (e : StreamEncoder) (name : List UInt8) : StreamEncoder :=
  let e := e.writeSeparator.append (utf8 ['"'])
  (append { e with buf := escapeString e.buf name } (utf8 ['"',':'])).setNeedComma false

def writeString (e : StreamEncoder) (s : List UInt8) : StreamEncoder :=
  let e := e.writeSeparator.append (utf8 ['"'])
  (append { e with buf := escapeString e.buf s } (utf8 ['"'])).setNeedComma true

def scalar (e : StreamEncoder) (text : List Char) : StreamEncoder :=
  (e.writeSeparator.append (utf8 text)).setNeedComma true

def writeInt64 (e : StreamEncoder) (v : Int64) : StreamEncoder := e.scalar (JsonText.integer v.toInt)

def writeUint64 (e : StreamEncoder) (v : UInt64) : StreamEncoder := e.scalar (Nat.toDigits 10 v.toNat)

def writeBool (e : StreamEncoder) (v : Bool) : StreamEncoder :=
  e.scalar (if v then ['t','r','u','e'] else ['f','a','l','s','e'])

def writeNull (e : StreamEncoder) : StreamEncoder := e.scalar ['n','u','l','l']

end StreamEncoder

lemma utf8_append (a b : List Char) : utf8 (a ++ b) = utf8 a ++ utf8 b := flatMap_append

variable (c : Char) {i : Nat} (buf : List UInt8) (e : StreamEncoder) (seq : UInt64)

variable (text : List Char)

lemma utf8_cons : utf8 (c :: text) = utf8 [c] ++ utf8 text :=
  utf8_append [c] text

def escapedByte (b : UInt8) : List UInt8 := if plain b then [b] else escapeByte b

/-- The loop up to a position: the bytes before it are written, but for those since `start`,
none of which needs an escape. -/
structure Escaped (buf s : List UInt8) (i : Nat) (state : List UInt8 × Nat) : Prop where
  start : state.2 ≤ i
  written : state.1 ++ (s.take i).drop state.2 = buf ++ (s.take i).flatMap escapedByte

lemma escapeRound_escaped {buf s : List UInt8} {state : List UInt8 × Nat} (inside : i < s.length)
    (before : Escaped buf s i state) : Escaped buf s (i + 1) (escapeRound s state i) := by
  have here := getElem?_eq_getElem inside
  have longer := take_succ_eq_append_getElem inside
  have length : (s.take i).length = i := length_take_of_le (by omega)
  rw [escapeRound,here]
  simp only
  split
  · rename_i unescaped
    refine ⟨Nat.le_succ_of_le before.start,?_⟩
    rw [longer,drop_append_of_le_length (by rw [length]; exact before.start),← append_assoc,
      before.written,flatMap_append]
    simp [escapedByte,unescaped]
  · rename_i unescaped
    have flushed : (if i > state.2 then state.1 ++ (s.take i).drop state.2 else state.1) =
        buf ++ (s.take i).flatMap escapedByte := by
      rw [← before.written]
      split
      · rfl
      · rw [drop_eq_nil_of_le (by omega),append_nil]
    refine ⟨Nat.le_refl _,?_⟩
    rw [flushed,longer,drop_eq_nil_of_le (by rw [length_append,length]; exact Nat.le_refl _),
      append_nil,flatMap_append,append_assoc]
    simp only [flatMap_cons,flatMap_nil,append_nil,escapedByte,if_neg unescaped]

lemma escapeRounds (buf s : List UInt8) (inside : i ≤ s.length) :
    Escaped buf s i ((List.range i).foldl (escapeRound s) (buf,0)) := by
  induction i with
  | zero => exact ⟨Nat.le_refl 0,by simp⟩
  | succ i ih =>
    rw [range_succ,foldl_append]
    exact escapeRound_escaped inside (ih (by omega))

lemma escapeString_eq (buf s : List UInt8) : escapeString buf s = buf ++ s.flatMap escapedByte := by
  have done := escapeRounds buf s (Nat.le_refl s.length)
  have written := done.written
  rw [take_length] at written
  rw [escapeString]
  simp only
  split
  · exact written
  · rw [← written,drop_eq_nil_of_le (by omega),append_nil]

lemma plain_of_large {c : Char} (large : 128 ≤ c.toNat) : ∀ b ∈ String.utf8EncodeChar c,plain b = true := by
  have byte : ∀ n : Nat,128 ≤ n → n < 256 → plain (UInt8.ofNat n) = true := by
    intro n least most
    have size : (UInt8.ofNat n).toNat = n := UInt8.toNat_ofNat_of_lt most
    simp only [plain,Bool.and_eq_true,decide_eq_true_eq,bne_iff_ne,ne_eq,UInt8.le_iff_toNat_le,
      ← UInt8.toNat_inj,size]
    exact ⟨⟨Nat.le_trans (by decide) least,fun same => absurd (same ▸ least) (by decide)⟩,
      fun same => absurd (same ▸ least) (by decide)⟩
  intro b member
  rw [String.utf8EncodeChar] at member
  simp only [show c.val.toNat = c.toNat from rfl,if_neg (by omega : ¬c.toNat ≤ 127)] at member
  split_ifs at member <;>
    simp only [mem_cons,not_mem_nil,or_false] at member <;>
    rcases member with rfl | rfl | rfl | rfl <;> exact byte _ (by omega) (by omega)

lemma escape_utf8EncodeChar : (String.utf8EncodeChar c).flatMap escapedByte = utf8 (JsonText.escaped c) := by
  by_cases small : c.toNat < 128
  · have table : ∀ n : Nat,n < 128 →
        (String.utf8EncodeChar (Char.ofNat n)).flatMap escapedByte = utf8 (JsonText.escaped (Char.ofNat n)) := by
      decide +kernel
    simpa only [Char.ofNat_toNat] using table c.toNat small
  · have large : 128 ≤ c.toNat := by omega
    have other : ∀ d : Char,d.toNat < 128 → c ≠ d := by
      rintro d ascii rfl
      omega
    have itself : JsonText.escaped c = [c] := by
      rw [JsonText.escaped,if_neg (other _ (by decide)),if_neg (other _ (by decide)),if_neg (other _ (by decide)),
        if_neg (other _ (by decide)),if_neg (other _ (by decide)),if_neg (other _ (by decide)),
        if_neg (other _ (by decide)),if_neg (by omega)]
    have same : ∀ b ∈ String.utf8EncodeChar c,escapedByte b = [b] :=
      fun b member => if_pos (plain_of_large large b member)
    rw [itself,utf8,flatMap_singleton,flatMap_congr same,flatMap_singleton']

variable (s : List Char)

lemma escapeString_utf8 : escapeString buf (utf8 s) = buf ++ utf8 (s.flatMap JsonText.escaped) := by
  rw [escapeString_eq]
  congr 1
  rw [utf8,utf8,flatMap_assoc,flatMap_assoc]
  exact flatMap_congr (fun c _ => escape_utf8EncodeChar c)

inductive Call
  | beginObject
  | endObject
  | beginArray
  | endArray
  | key (name : List UInt8)
  | writeString (s : List UInt8)
  | writeInt64 (v : Int64)
  | writeUint64 (v : UInt64)
  | writeBool (v : Bool)
  | writeNull

def perform (e : StreamEncoder) : Call → StreamEncoder
  | .beginObject => e.beginObject
  | .endObject => e.endObject
  | .beginArray => e.beginArray
  | .endArray => e.endArray
  | .key name => e.key name
  | .writeString s => e.writeString s
  | .writeInt64 v => e.writeInt64 v
  | .writeUint64 v => e.writeUint64 v
  | .writeBool v => e.writeBool v
  | .writeNull => e.writeNull

def run (e : StreamEncoder) (calls : List Call) : StreamEncoder := calls.foldl perform e

/-- A JSON tree without floating-point leaves. A string is a sequence of Unicode characters,
and the members of an object keep their order. -/
inductive Tree
  | null
  | bool (b : Bool)
  | int64 (v : Int64)
  | uint64 (v : UInt64)
  | string (s : List Char)
  | array (items : List Tree)
  | object (members : List (List Char × Tree))

mutual

def Tree.calls : Tree → List Call
  | .null => [.writeNull]
  | .bool b => [.writeBool b]
  | .int64 v => [.writeInt64 v]
  | .uint64 v => [.writeUint64 v]
  | .string s => [.writeString (utf8 s)]
  | .array items => .beginArray :: (itemsCalls items ++ [.endArray])
  | .object members => .beginObject :: (membersCalls members ++ [.endObject])

def itemsCalls : List Tree → List Call
  | [] => []
  | t :: items => t.calls ++ itemsCalls items

def membersCalls : List (List Char × Tree) → List Call
  | [] => []
  | (name,t) :: members => .key (utf8 name) :: (t.calls ++ membersCalls members)

end

mutual

def Tree.value : Tree → Value
  | .null => .null
  | .bool b => .bool b
  | .int64 v => .number ⟨v.toInt,0⟩
  | .uint64 v => .number ⟨v.toNat,0⟩
  | .string s => .string s
  | .array items => .array (itemsValue items)
  | .object members => .object (membersValue members)

def itemsValue : List Tree → List Value
  | [] => []
  | t :: items => t.value :: itemsValue items

def membersValue : List (List Char × Tree) → List (List Char × Value)
  | [] => []
  | (name,t) :: members => (name,t.value) :: membersValue members

end

lemma run_append (a b : List Call) : run e (a ++ b) = run (run e a) b :=
  foldl_append

lemma run_cons (c : Call) (calls : List Call) : run e (c :: calls) = run (perform e c) calls := rfl

namespace StreamEncoder

lemma utf8_quoted (s rest : List Char) :
    utf8 (JsonText.quoted s ++ rest) = utf8 ['"'] ++ (utf8 (s.flatMap JsonText.escaped) ++ utf8 ('"' :: rest)) := by
  rw [← utf8_append,JsonText.quoted,cons_append,append_assoc]
  rfl

lemma writeString_utf8 : e.writeString (utf8 s) = e.scalar (JsonText.quoted s) := by
  have text := utf8_quoted s []
  rw [append_nil] at text
  simp only [writeString,scalar,append,escapeString_utf8,text,append_assoc]

variable (name : List Char)

lemma key_utf8 :
    e.key (utf8 name) = (e.writeSeparator.append (utf8 (JsonText.quoted name ++ [':']))).setNeedComma false := by
  simp only [key,append,escapeString_utf8,utf8_quoted,append_assoc]

variable (outer : List Bool)

lemma scalar_first : scalar ⟨buf,false :: outer⟩ text = ⟨buf ++ utf8 text,true :: outer⟩ := rfl

lemma scalar_next : scalar ⟨buf,true :: outer⟩ text = ⟨buf ++ utf8 (',' :: text),true :: outer⟩ := by
  rw [utf8_cons,← append_assoc]
  rfl

lemma key_first :
    key ⟨buf,false :: outer⟩ (utf8 name) = ⟨buf ++ utf8 (JsonText.quoted name ++ [':']),false :: outer⟩ := by
  rw [key_utf8]
  rfl

lemma key_next : key ⟨buf,true :: outer⟩ (utf8 name) =
      ⟨buf ++ utf8 (',' :: (JsonText.quoted name ++ [':'])),false :: outer⟩ := by
  rw [key_utf8,utf8_cons ',',← append_assoc]
  rfl

lemma writeSeparator_needComma : e.writeSeparator.needComma = e.needComma := by
  rw [writeSeparator]
  split <;> rfl

lemma beginScope_eq (left : Char) :
    e.beginScope left = ⟨e.writeSeparator.buf ++ utf8 [left],false :: e.needComma⟩ := by
  rw [← writeSeparator_needComma e]
  rfl

lemma endScope_eq (left right : Char) (text : List Char) (flag : Bool) :
    endScope ⟨e.writeSeparator.buf ++ utf8 [left] ++ utf8 text,flag :: e.needComma⟩ right =
      e.scalar (left :: (text ++ [right])) := by
  have whole : utf8 (left :: (text ++ [right])) = utf8 [left] ++ (utf8 text ++ utf8 [right]) := by
    rw [utf8_cons,utf8_append]
  simp only [endScope,scalar,append,tail_cons,whole,append_assoc]
  rw [← writeSeparator_needComma e]

lemma endScope_beginScope (left right : Char) : (e.beginScope left).endScope right = e.scalar [left,right] := by
  have whole := endScope_eq e left right [] false
  rwa [show utf8 [] = [] from rfl,append_nil,← beginScope_eq] at whole

end StreamEncoder

open StreamEncoder

mutual

lemma run_calls (t : Tree) (e : StreamEncoder) : run e t.calls = e.scalar (compact t.value) := by
  match t with
  | .null | .bool true | .bool false => rfl
  | .int64 v | .uint64 v =>
    rw [Tree.value,compact,JsonText.decimal,JsonText.power,if_pos rfl,append_nil]
    rfl
  | .string s => exact writeString_utf8 e s
  | .array [] => exact endScope_beginScope e '[' ']'
  | .array (t :: items) =>
    have first := run_calls t ⟨e.writeSeparator.buf ++ utf8 ['['],false :: e.needComma⟩
    have others := run_itemsCalls items
    rw [Tree.calls,itemsCalls,run_cons,run_append,run_append,perform,beginArray,beginScope_eq,first,scalar_first,
      others,append_assoc _ (utf8 _),← utf8_append]
    refine (endScope_eq e '[' ']' _ true).trans ?_
    rw [Tree.value,itemsValue,compact,append_assoc]
  | .object [] => exact endScope_beginScope e '\x7b' '\x7d'
  | .object ((name,t) :: members) =>
    have first := run_calls t
    have others := run_membersCalls members
    rw [Tree.calls,membersCalls,cons_append,run_cons,run_cons,run_append,run_append,perform,perform,beginObject,
      beginScope_eq,key_first,first,scalar_first,others,append_assoc,append_assoc _ (utf8 _),
      ← utf8_append,← utf8_append]
    refine (endScope_eq e '\x7b' '\x7d' _ true).trans ?_
    rw [Tree.value,membersValue,compact]
    simp only [append_assoc,cons_append,nil_append]

lemma run_itemsCalls (items : List Tree) (buf : List UInt8) (outer : List Bool) :
    run ⟨buf,true :: outer⟩ (itemsCalls items) =
      ⟨buf ++ utf8 (moreItems (itemsValue items)),true :: outer⟩ := by
  match items with
  | [] => exact congrArg (StreamEncoder.mk · _) (append_nil buf).symm
  | t :: items =>
    have first := run_calls t
    have others := run_itemsCalls items
    rw [itemsCalls,run_append,first,scalar_next,others,append_assoc,← utf8_append,itemsValue]
    rfl

lemma run_membersCalls (members : List (List Char × Tree)) (buf : List UInt8) (outer : List Bool) :
    run ⟨buf,true :: outer⟩ (membersCalls members) =
      ⟨buf ++ utf8 (moreMembers (membersValue members)),true :: outer⟩ := by
  match members with
  | [] => exact congrArg (StreamEncoder.mk · _) (append_nil buf).symm
  | (name,t) :: members =>
    have first := run_calls t
    have others := run_membersCalls members
    rw [membersCalls,run_cons,run_append,perform,key_next,first,scalar_first,others,append_assoc,
      append_assoc,← utf8_append,← utf8_append,membersValue,moreMembers]
    simp only [append_assoc,cons_append,nil_append]

end

def readBack (bytes : List UInt8) : Option Value :=
  (bytes.toByteArray.utf8Decode?).bind (fun text => JsonText.parse text.toList)

lemma readBack_compact (v : Value) : readBack (utf8 (compact v)) = some v := by
  have decoded : (utf8 (compact v)).toByteArray.utf8Decode? = some (compact v).toArray :=
    utf8Decode?_utf8Encode
  rw [readBack,decoded,Option.bind_some,JsonText.parse_compact]

/-- Driven with the calls of a tree, the encoder writes a text after what the buffer held,
and a JSON parser reads the text back as the tree. -/
theorem stream_read_back (t : Tree) (buf : List UInt8) :
    ∃ text,(run (newStreamEncoder buf) t.calls).buf = buf ++ text ∧ readBack text = some t.value := by
  refine ⟨utf8 (compact t.value),?_,readBack_compact t.value⟩
  rw [run_calls]
  rfl

end Tempest.Fastjson
