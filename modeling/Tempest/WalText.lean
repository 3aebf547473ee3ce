import Tempest.Wal

/-! A text for entries. On entries whose type consists of letters and digits, without
data and stamped at the Unix epoch, it is the JSON text of `encoding/json`; all other
values of these fields are written out as numbers. Between the braces there are no
further ones, so that the texts have the laws of a codec. -/
namespace Tempest.Wal
open Lines List

def Inner (c : Char) : Prop := 13 < c.toNat ∧ c.toNat ≠ 44 ∧ c.toNat < 123

instance (c : Char) : Decidable (Inner c) := inferInstanceAs (Decidable (_ ∧ _ ∧ _))

def nat (n : Nat) : List Char := Nat.toDigits 10 n

def readNat (text : List Char) : Nat := Nat.ofDigitChars 10 text 0

def int : Int → List Char
  | .ofNat n => nat n
  | .negSucc n => '-' :: nat n

def readInt : List Char → Int
  | '-' :: text => .negSucc (readNat text)
  | text => .ofNat (readNat text)

def nats (ns : List Nat) : List Char := join '.' (ns.map nat)

def readNats (text : List Char) : List Nat := (split '.' text).map readNat

def str (s : String) : List Char :=
  if s.toList.all Char.isAlphanum then '"' :: s.toList ++ ['"'] else '!' :: nats (s.toList.map Char.toNat)

def readStr : List Char → String
  | '!' :: text => String.ofList ((readNats text).map Char.ofNat)
  | text => String.ofList (text.drop 1).dropLast

def bytes (data : List UInt8) : List Char :=
  if data = [] then "null".toList else '!' :: nats (data.map UInt8.toNat)

def readBytes : List Char → List UInt8
  | '!' :: text => (readNats text).map UInt8.ofNat
  | _ => []

def time (t : Time) : List Char :=
  if t = 0 then "\"1970-01-01T00:00:00Z\"".toList else '!' :: int t

def readTime : List Char → Time
  | '!' :: text => readInt text
  | _ => 0

def firstFields (e : Entry) : List (List Char) :=
  ["\"index\":".toList ++ int e.index,"\"term\":".toList ++ int e.term,"\"type\":".toList ++ str e.type,
    "\"data\":".toList ++ bytes e.data]

def lastField (e : Entry) : List Char := "\"timestamp\":".toList ++ time e.timestamp

def fields (e : Entry) : List (List Char) := firstFields e ++ [lastField e]

def readFields (parts : List (List Char)) : Entry where
  index := readInt ((parts.getD 0 []).drop 8)
  term := readInt ((parts.getD 1 []).drop 7)
  type := readStr ((parts.getD 2 []).drop 7)
  data := readBytes ((parts.getD 3 []).drop 7)
  timestamp := readTime ((parts.getD 4 []).drop 12)

def body (e : Entry) : List Char := join ',' (firstFields e) ++ lastField e

def text (e : Entry) : List Char := '{' :: body e ++ ['}']

variable {c : Char} (n : Nat) (i : Int) (ns : List Nat) (s : String) (data : List UInt8) (t : Time) (e : Entry)

lemma inner_of_alphanum (alphanum : c.isAlphanum = true) : Inner c := by
  delta Char.isAlphanum Char.isAlpha Char.isUpper Char.isLower Char.isDigit at alphanum
  simp only [ge_iff_le,UInt32.le_iff_toNat_le,Bool.or_eq_true,Bool.and_eq_true,decide_eq_true_eq] at alphanum
  change (65 ≤ c.toNat ∧ c.toNat ≤ 90 ∨ 97 ≤ c.toNat ∧ c.toNat ≤ 122) ∨ 48 ≤ c.toNat ∧ c.toNat ≤ 57 at alphanum
  rw [Inner]
  omega

lemma inner_of_all {text : List Char} (all : text.all (fun c => decide (Inner c)) = true) : ∀ c ∈ text,Inner c := by
  intro c member
  exact of_decide_eq_true (all_eq_true.mp all c member)

lemma inner_nat : ∀ c ∈ nat n,Inner c := by
  intro c member
  apply inner_of_alphanum
  rw [Char.isAlphanum,Nat.isDigit_of_mem_toDigits (by decide) (by decide) member,Bool.or_true]

lemma inner_int : ∀ c ∈ int i,Inner c := by
  cases i with
  | ofNat n => exact inner_nat n
  | negSucc n => exact forall_mem_cons.mpr ⟨by decide,inner_nat n⟩

lemma inner_nats : ∀ c ∈ nats ns,Inner c := by
  intro c member
  obtain ⟨line,listed,inside⟩ := mem_flatMap.mp member
  obtain ⟨n,-,rfl⟩ := mem_map.mp listed
  rcases mem_append.mp inside with digit | ending
  · exact inner_nat n c digit
  · rw [mem_singleton.mp ending]
    decide

lemma inner_str : ∀ c ∈ str s,Inner c := by
  rw [str]
  split_ifs with plain
  · intro c member
    rcases mem_append.mp member with inside | quote
    · rcases mem_cons.mp inside with rfl | letter
      · decide
      · exact inner_of_alphanum (all_eq_true.mp plain c letter)
    · rw [mem_singleton.mp quote]
      decide
  · exact forall_mem_cons.mpr ⟨by decide,inner_nats _⟩

lemma inner_bytes : ∀ c ∈ bytes data,Inner c := by
  rw [bytes]
  split_ifs
  · exact inner_of_all (by decide)
  · exact forall_mem_cons.mpr ⟨by decide,inner_nats _⟩

lemma inner_time : ∀ c ∈ time t,Inner c := by
  rw [time]
  split_ifs
  · exact inner_of_all (by decide)
  · exact forall_mem_cons.mpr ⟨by decide,inner_int _⟩

lemma inner_fields : ∀ field ∈ fields e,∀ c ∈ field,Inner c := by
  have keyed : ∀ (key : String) value,(∀ c ∈ key.toList,Inner c) → (∀ c ∈ value,Inner c) →
      ∀ c ∈ key.toList ++ value,Inner c := by
    intro key value first second
    exact forall_mem_append.mpr ⟨first,second⟩
  simp only [fields,firstFields,cons_append,nil_append,forall_mem_cons]
  refine ⟨keyed _ _ (inner_of_all (by decide)) (inner_int _),keyed _ _ (inner_of_all (by decide)) (inner_int _),keyed _ _ (inner_of_all (by decide)) (inner_str _),
    keyed _ _ (inner_of_all (by decide)) (inner_bytes _),keyed _ _ (inner_of_all (by decide)) (inner_time _),?_⟩
  intro field member
  cases member

lemma readNat_nat : readNat (nat n) = n := Nat.ofDigitChars_toDigits (by decide) (by decide)

lemma readInt_int : readInt (int i) = i := by
  cases i with
  | ofNat n =>
    have digits : ∀ text, nat n ≠ '-' :: text := by
      intro text same
      have digit := Nat.isDigit_of_mem_toDigits (by decide) (by decide) (same ▸ mem_cons_self)
      cases digit
    rw [int,readInt,readNat_nat]
    exact digits
  | negSucc n => rw [int,readInt,readNat_nat]

lemma map_inverse {α β : Type} {write : α → β} {read : β → α} (round : ∀ a,read (write a) = a) (items : List α) :
    (items.map write).map read = items := by
  have inverse : read ∘ write = id := funext round
  rw [map_map,inverse,map_id]

lemma readNats_nats : readNats (nats ns) = ns := by
  have clean : ∀ line ∈ ns.map nat, '.' ∉ line := by
    intro line member dot
    obtain ⟨n,-,rfl⟩ := mem_map.mp member
    cases Nat.isDigit_of_mem_toDigits (by decide) (by decide) dot
  have parts := split_join clean []
  rw [append_nil,split,append_nil] at parts
  rw [readNats,nats,parts]
  exact map_inverse readNat_nat ns

lemma readStr_str : readStr (str s) = s := by
  rw [str]
  split_ifs with plain
  · simp [readStr]
  · rw [readStr,readNats_nats,map_inverse Char.ofNat_toNat,String.ofList_toList]

lemma readBytes_bytes : readBytes (bytes data) = data := by
  rw [bytes]
  split_ifs with empty
  · rw [empty]
    rfl
  · rw [readBytes,readNats_nats,map_inverse fun b => UInt8.ofNat_toNat]

lemma readTime_time : readTime (time t) = t := by
  rw [time]
  split_ifs with epoch
  · rw [epoch]
    rfl
  · exact readInt_int t

lemma drop_key {part key value : List Char} {size : Nat} (keyed : part = key ++ value) (length : key.length = size) :
    part.drop size = value := by
  rw [keyed]
  exact drop_left' length

lemma readFields_fields : readFields (fields e) = e := by
  have index : ((fields e).getD 0 []).drop 8 = int e.index := drop_key rfl (by decide)
  have term : ((fields e).getD 1 []).drop 7 = int e.term := drop_key rfl (by decide)
  have type : ((fields e).getD 2 []).drop 7 = str e.type := drop_key rfl (by decide)
  have data : ((fields e).getD 3 []).drop 7 = bytes e.data := drop_key rfl (by decide)
  have timestamp : ((fields e).getD 4 []).drop 12 = time e.timestamp := drop_key rfl (by decide)
  rw [readFields,index,term,type,data,timestamp,readInt_int,readInt_int,readStr_str,readBytes_bytes,readTime_time]

lemma body_comma : body e ++ [','] = join ',' (fields e) := by
  rw [body,fields,join_append]
  simp [join]

lemma split_body : split ',' (body e ++ [',']) = fields e := by
  have clean : ∀ field ∈ fields e, ',' ∉ field := by
    intro field member comma
    exact (inner_fields e field member ',' comma).2.1 rfl
  have parts := split_join clean []
  rw [append_nil,split,append_nil] at parts
  rw [body_comma,parts]

lemma body_chars : ∀ c ∈ body e,13 < c.toNat ∧ c.toNat < 123 := by
  intro c member
  have listed : c ∈ join ',' (fields e) := by
    rw [← body_comma]
    exact mem_append_left _ member
  obtain ⟨field,among,inside⟩ := mem_flatMap.mp listed
  rcases mem_append.mp inside with value | comma
  · obtain ⟨above,-,below⟩ := inner_fields e field among c value
    exact ⟨above,below⟩
  · rw [mem_singleton.mp comma]
    decide

def byte (c : Char) : UInt8 := UInt8.ofNat c.toNat

def char (b : UInt8) : Char := Char.ofNat b.toNat

def marshal (e : Entry) : List UInt8 := (text e).map byte

def unmarshal (line : List UInt8) : Option Entry :=
  let e := readFields (split ',' (((line.map char).drop 1).dropLast ++ [',']))
  if marshal e = line then some e else none

lemma byte_toNat (small : c.toNat < 256) : (byte c).toNat = c.toNat := by
  rw [byte]
  exact Nat.mod_eq_of_lt small

lemma text_chars : ∀ c ∈ text e,c.toNat < 256 := by
  intro c member
  rcases mem_append.mp member with front | brace
  · rcases mem_cons.mp front with rfl | inside
    · decide
    · exact Nat.lt_trans (body_chars e c inside).2 (by decide)
  · rw [mem_singleton.mp brace]
    decide

lemma unmarshal_marshal : unmarshal (marshal e) = some e := by
  have chars : (marshal e).map char = text e := by
    rw [marshal,map_map,map_congr_left,map_id]
    intro c member
    rw [Function.comp_apply,char,byte_toNat (text_chars e c member),Char.ofNat_toNat]
    rfl
  have inside : ((text e).drop 1).dropLast = body e := by
    simp [text]
  simp only [unmarshal,chars,inside,split_body,readFields_fields,if_true]

lemma unmarshal_some {line : List UInt8} {e : Entry} (read : unmarshal line = some e) : line = marshal e := by
  simp only [unmarshal,Option.ite_none_right_eq_some,Option.some.injEq] at read
  rw [← read.2,read.1]

def inside (e : Entry) : List UInt8 := (body e).map byte

lemma marshal_eq : marshal e = 123 :: inside e ++ [125] := by
  rw [marshal,text,map_append]
  rfl

lemma inside_bytes : ∀ b ∈ inside e,13 < b.toNat ∧ b.toNat < 123 := by
  intro b member
  obtain ⟨c,listed,rfl⟩ := mem_map.mp member
  have bounds := body_chars e c listed
  rw [byte_toNat (by omega)]
  exact bounds

lemma ends_with_brace : (125 : UInt8) ∈ marshal e := by
  rw [marshal_eq]
  exact mem_append_right _ (mem_singleton.mpr rfl)

lemma starts_with_brace : (123 : UInt8) ∈ marshal e := by
  rw [marshal_eq]
  exact mem_append_left _ mem_cons_self

lemma torn_none (part : List UInt8) (early : part <+: marshal e) (proper : part ≠ marshal e) :
    unmarshal part = none := by
  rw [Option.eq_none_iff_forall_ne_some]
  intro other read
  -- the closing brace is missing
  have closing : 125 ∈ part := by
    rw [unmarshal_some read]
    exact ends_with_brace other
  rw [marshal_eq] at early proper
  rcases prefix_concat_iff.mp early with whole | shorter
  · exact proper whole
  · rcases mem_cons.mp (shorter.subset closing) with brace | inner
    · cases brace
    · have bounds := (inside_bytes e 125 inner).2
      exact absurd bounds (by decide)

lemma glued_none (e next : Entry) (part : List UInt8) (early : part <+: marshal e) (proper : part ≠ []) :
    unmarshal (part ++ marshal next) = none := by
  rw [Option.eq_none_iff_forall_ne_some]
  intro other read
  -- there is a second opening brace
  have whole := unmarshal_some read
  cases part with
  | nil => exact proper rfl
  | cons first part =>
    rw [marshal_eq other,cons_append,cons_append] at whole
    have opening : 123 ∈ inside other ++ [125] := by
      rw [← (List.cons.inj whole).2]
      exact mem_append_right _ (starts_with_brace next)
    rcases mem_append.mp opening with inner | brace
    · have bounds := (inside_bytes other 123 inner).2
      exact absurd bounds (by decide)
    · cases mem_singleton.mp brace

lemma newline_free : newline ∉ marshal e := by
  intro member
  rw [marshal_eq] at member
  rcases mem_append.mp member with front | brace
  · rcases mem_cons.mp front with brace | inner
    · cases brace
    · have bounds := (inside_bytes e newline inner).1
      exact absurd bounds (by decide)
  · cases mem_singleton.mp brace

def textCodec : Codec where
  marshal := marshal
  unmarshal := unmarshal
  round := unmarshal_marshal
  clean := newline_free
  ending := by
    intro e
    rw [marshal_eq,List.getLast?_concat]
    decide
  torn := torn_none
  glued := glued_none

example : textCodec.marshal ⟨12,0,"put",[],0⟩ =
    "\x7b\"index\":12,\"term\":0,\"type\":\"put\",\"data\":null,\"timestamp\":\"1970-01-01T00:00:00Z\"\x7d".toList.map byte := by
  decide +kernel

end Tempest.Wal
