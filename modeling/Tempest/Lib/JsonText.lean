import Mathlib.Data.List.Basic

/-! JSON texts. The parser follows the grammar of RFC 8259, with white space, fractions,
exponents and all escapes; `compact` is a printer without white space. A number is kept as
its digits and a power of ten. -/
namespace JsonText
open List

structure Decimal where
  mantissa : Int
  exponent : Int
  deriving DecidableEq

inductive Value
  | null
  | bool (b : Bool)
  | number (d : Decimal)
  | string (s : List Char)
  | array (items : List Value)
  | object (members : List (List Char × Value))

def isSpace (c : Char) : Bool := c = ' ' || c = '\t' || c = '\n' || c = '\r'

def skip (text : List Char) : List Char := text.dropWhile isSpace

def hexDigit (c : Char) : Option Nat :=
  if '0' ≤ c ∧ c ≤ '9' then some (c.toNat - 48)
  else if 'a' ≤ c ∧ c ≤ 'f' then some (c.toNat - 87)
  else if 'A' ≤ c ∧ c ≤ 'F' then some (c.toNat - 55)
  else none

def hex4 : List Char → Option (Nat × List Char)
  | a :: b :: c :: d :: rest => do
    let a ← hexDigit a
    let b ← hexDigit b
    let c ← hexDigit c
    let d ← hexDigit d
    return (((a * 16 + b) * 16 + c) * 16 + d,rest)
  | _ => none

def unicode (text : List Char) : Option (Char × List Char) := do
  let (high,rest) ← hex4 text
  if 0xD800 ≤ high ∧ high < 0xDC00 then
    match rest with
    | '\\' :: 'u' :: rest =>
      let (low,rest) ← hex4 rest
      if 0xDC00 ≤ low ∧ low < 0xE000 then
        return (Char.ofNat (0x10000 + (high - 0xD800) * 0x400 + (low - 0xDC00)),rest)
      else none
    | _ => none
  else if 0xDC00 ≤ high ∧ high < 0xE000 then none
  else return (Char.ofNat high,rest)

def escape : List Char → Option (Char × List Char)
  | '"' :: rest => some ('"',rest)
  | '\\' :: rest => some ('\\',rest)
  | '/' :: rest => some ('/',rest)
  | 'b' :: rest => some ('\x08',rest)
  | 'f' :: rest => some ('\x0c',rest)
  | 'n' :: rest => some ('\n',rest)
  | 'r' :: rest => some ('\r',rest)
  | 't' :: rest => some ('\t',rest)
  | 'u' :: rest => unicode rest
  | _ => none

def stringFrom : Nat → List Char → Option (List Char × List Char)
  | 0,_ => none
  | _,[] => none
  | fuel + 1,c :: rest =>
    if c = '"' then some ([],rest)
    else if c = '\\' then do
      let (c,rest) ← escape rest
      let (s,rest) ← stringFrom fuel rest
      return (c :: s,rest)
    else if c.toNat < 0x20 then none
    else do
      let (s,rest) ← stringFrom fuel rest
      return (c :: s,rest)

def string (text : List Char) : Option (List Char × List Char) := stringFrom (text.length + 1) text

def digits (text : List Char) : Option (List Char × List Char) :=
  match text.takeWhile Char.isDigit with
  | [] => none
  | ds => some (ds,text.dropWhile Char.isDigit)

def integerDigits : List Char → Option (List Char × List Char)
  | '0' :: rest => some (['0'],rest)
  | text => digits text

def fraction : List Char → Option (List Char × List Char)
  | '.' :: rest => digits rest
  | text => some ([],text)

def natural (ds : List Char) : Nat := Nat.ofDigitChars 10 ds 0

def signed : List Char → Option (Int × List Char)
  | '-' :: rest => (digits rest).map (fun (ds,rest) => (-(natural ds : Int),rest))
  | '+' :: rest => (digits rest).map (fun (ds,rest) => ((natural ds : Int),rest))
  | text => (digits text).map (fun (ds,rest) => ((natural ds : Int),rest))

def exponent : List Char → Option (Int × List Char)
  | 'e' :: rest => signed rest
  | 'E' :: rest => signed rest
  | text => some (0,text)

def unsigned (text : List Char) : Option (Decimal × List Char) := do
  let (whole,rest) ← integerDigits text
  let (part,rest) ← fraction rest
  let (power,rest) ← exponent rest
  return (⟨natural (whole ++ part),power - part.length⟩,rest)

def number : List Char → Option (Decimal × List Char)
  | '-' :: rest => (unsigned rest).map (fun (d,rest) => ({ d with mantissa := -d.mantissa },rest))
  | text => unsigned text

def literal (name : List Char) (v : Value) (text : List Char) : Option (Value × List Char) :=
  if name.isPrefixOf text then some (v,text.drop name.length) else none

mutual

def value : Nat → List Char → Option (Value × List Char)
  | 0,_ => none
  | fuel + 1,text =>
    match skip text with
    | '\x7b' :: rest =>
      match skip rest with
      | '\x7d' :: rest => some (.object [],rest)
      | rest => (members fuel rest).map (fun (ms,rest) => (.object ms,rest))
    | '[' :: rest =>
      match skip rest with
      | ']' :: rest => some (.array [],rest)
      | rest => (elements fuel rest).map (fun (items,rest) => (.array items,rest))
    | '"' :: rest => (string rest).map (fun (s,rest) => (.string s,rest))
    | 't' :: rest => literal ['r','u','e'] (.bool true) rest
    | 'f' :: rest => literal ['a','l','s','e'] (.bool false) rest
    | 'n' :: rest => literal ['u','l','l'] .null rest
    | text => (number text).map (fun (d,rest) => (.number d,rest))

def elements : Nat → List Char → Option (List Value × List Char)
  | 0,_ => none
  | fuel + 1,text => do
    let (v,rest) ← value fuel text
    match skip rest with
    | ',' :: rest =>
      let (items,rest) ← elements fuel rest
      return (v :: items,rest)
    | ']' :: rest => return ([v],rest)
    | _ => none

def members : Nat → List Char → Option (List (List Char × Value) × List Char)
  | 0,_ => none
  | fuel + 1,text =>
    match skip text with
    | '"' :: rest => do
      let (key,rest) ← string rest
      match skip rest with
      | ':' :: rest =>
        let (v,rest) ← value fuel rest
        match skip rest with
        | ',' :: rest =>
          let (ms,rest) ← members fuel rest
          return ((key,v) :: ms,rest)
        | '\x7d' :: rest => return ([(key,v)],rest)
        | _ => none
      | _ => none
    | _ => none

end

/-- A text is one value with white space around it. Every value and every body takes one
round for itself and one for its first value, and each has at least one character. -/
def parse (text : List Char) : Option Value :=
  match value (2 * text.length + 2) text with
  | some (v,rest) => if skip rest = [] then some v else none
  | none => none

def escaped (c : Char) : List Char :=
  if c = '"' then ['\\','"']
  else if c = '\\' then ['\\','\\']
  else if c = '\n' then ['\\','n']
  else if c = '\r' then ['\\','r']
  else if c = '\t' then ['\\','t']
  else if c = '\x08' then ['\\','b']
  else if c = '\x0c' then ['\\','f']
  else if c.toNat < 0x20 then
    ['\\','u','0','0',Nat.digitChar (c.toNat / 16),Nat.digitChar (c.toNat % 16)]
  else [c]

def quoted (s : List Char) : List Char := '"' :: (s.flatMap escaped ++ ['"'])

def integer : Int → List Char
  | .ofNat n => Nat.toDigits 10 n
  | .negSucc n => '-' :: Nat.toDigits 10 (n + 1)

def power (e : Int) : List Char := if e = 0 then [] else 'e' :: integer e

def decimal (d : Decimal) : List Char := integer d.mantissa ++ power d.exponent

mutual

def compact : Value → List Char
  | .null => ['n','u','l','l']
  | .bool true => ['t','r','u','e']
  | .bool false => ['f','a','l','s','e']
  | .number d => decimal d
  | .string s => quoted s
  | .array [] => ['[',']']
  | .array (v :: items) => '[' :: (compact v ++ (moreItems items ++ [']']))
  | .object [] => ['\x7b','\x7d']
  | .object ((key,v) :: ms) =>
    '\x7b' :: (quoted key ++ ':' :: (compact v ++ (moreMembers ms ++ ['\x7d'])))

def moreItems : List Value → List Char
  | [] => []
  | v :: items => ',' :: (compact v ++ moreItems items)

def moreMembers : List (List Char × Value) → List Char
  | [] => []
  | (key,v) :: ms => ',' :: (quoted key ++ ':' :: (compact v ++ moreMembers ms))

end

variable {c : Char} {rest : List Char} {fuel : Nat}

lemma isDigit_of_toDigits {n : Nat} (member : c ∈ Nat.toDigits 10 n) : c.isDigit = true :=
  Nat.isDigit_of_mem_toDigits (by decide) (by decide) member

variable (n : Nat) (e : Int) (d : Decimal) (s : List Char) (v : Value)

lemma digits_append (stops : ∀ c ∈ rest.head?,c.isDigit = false) :
    digits (Nat.toDigits 10 n ++ rest) = some (Nat.toDigits 10 n,rest) := by
  have all : ∀ c ∈ Nat.toDigits 10 n,c.isDigit = true := fun c member => isDigit_of_toDigits member
  have nothing : rest.takeWhile Char.isDigit = [] ∧ rest.dropWhile Char.isDigit = rest := by
    cases rest with
    | nil => exact ⟨rfl,rfl⟩
    | cons c rest => simp [stops c rfl]
  have whole : (Nat.toDigits 10 n ++ rest).takeWhile Char.isDigit = Nat.toDigits 10 n := by
    rw [takeWhile_append_of_pos all,nothing.1,append_nil]
  have left : (Nat.toDigits 10 n ++ rest).dropWhile Char.isDigit = rest := by
    rw [dropWhile_append_of_pos all,nothing.2]
  rw [digits,whole,left]
  split
  · rename_i none
    exact absurd none Nat.toDigits_ne_nil
  · rfl

lemma toDigits_head (head : (Nat.toDigits 10 n).head? = some '0') : n = 0 := by
  induction n using Nat.strongRecOn with
  | ind n ih =>
    rw [Nat.toDigits_eq_if (by decide)] at head
    split at head
    · rename_i small
      have zero : ∀ d < 10,Nat.digitChar d = '0' → d = 0 := by decide
      exact zero n small (Option.some.inj head)
    · rename_i large
      rw [head?_append_of_ne_nil _ Nat.toDigits_ne_nil] at head
      have := ih (n / 10) (by omega) head
      omega

lemma natural_toDigits : natural (Nat.toDigits 10 n) = n :=
  Nat.ofDigitChars_toDigits (by decide) (by decide)

lemma integerDigits_append (stops : ∀ c ∈ rest.head?,c.isDigit = false) :
    integerDigits (Nat.toDigits 10 n ++ rest) = some (Nat.toDigits 10 n,rest) := by
  by_cases zero : n = 0
  · subst zero
    rfl
  · rw [integerDigits]
    · exact digits_append n stops
    · intro tail same
      apply zero
      apply toDigits_head n
      have head := congrArg List.head? same
      rwa [head?_append_of_ne_nil _ Nat.toDigits_ne_nil] at head

lemma signed_integer (i : Int) (stops : ∀ c ∈ rest.head?,c.isDigit = false) :
    signed (integer i ++ rest) = some (i,rest) := by
  cases i with
  | ofNat n =>
    have plain : ∀ tail c,c.isDigit = false → Nat.toDigits 10 n ++ rest ≠ c :: tail := by
      intro tail c sign same
      have head := congrArg List.head? same
      rw [head?_append_of_ne_nil _ Nat.toDigits_ne_nil] at head
      have digit := isDigit_of_toDigits (mem_of_mem_head? head)
      rw [sign] at digit
      cases digit
    rw [integer,signed]
    · simp only [digits_append n stops,Option.map_some,natural_toDigits]
      rfl
    · exact fun tail => plain tail '-' (by decide)
    · exact fun tail => plain tail '+' (by decide)
  | negSucc n =>
    rw [integer,cons_append,signed]
    simp only [digits_append (n + 1) stops,Option.map_some,natural_toDigits]
    rfl

def Stops (rest : List Char) : Prop :=
  ∀ c ∈ rest.head?,c.isDigit = false ∧ c ≠ '.' ∧ c ≠ 'e' ∧ c ≠ 'E'

lemma stops_nil : Stops [] := by
  intro c member
  cases member

lemma stops_cons (stop : c.isDigit = false ∧ c ≠ '.' ∧ c ≠ 'e' ∧ c ≠ 'E') : Stops (c :: rest) := by
  intro d member
  cases member
  exact stop

lemma exponent_power (stops : Stops rest) : exponent (power e ++ rest) = some (e,rest) := by
  by_cases zero : e = 0
  · rw [power,if_pos zero,nil_append,exponent,zero]
    · rintro tail rfl
      exact (stops 'e' rfl).2.2.1 rfl
    · rintro tail rfl
      exact (stops 'E' rfl).2.2.2 rfl
  · rw [power,if_neg zero,cons_append]
    exact signed_integer e (fun c member => (stops c member).1)

lemma power_head (stops : Stops rest) : ∀ c ∈ (power e ++ rest).head?,c.isDigit = false ∧ c ≠ '.' := by
  intro c member
  by_cases zero : e = 0
  · rw [power,if_pos zero] at member
    exact ⟨(stops c member).1,(stops c member).2.1⟩
  · rw [power,if_neg zero] at member
    cases member
    decide

lemma unsigned_append (e : Int) (stops : Stops rest) :
    unsigned (Nat.toDigits 10 n ++ (power e ++ rest)) = some (⟨n,e⟩,rest) := by
  have next := power_head e stops
  have whole : fraction (power e ++ rest) = some ([],power e ++ rest) := by
    rw [fraction]
    intro tail same
    exact (next '.' (by rw [same]; rfl)).2 rfl
  rw [unsigned,integerDigits_append n (fun c member => (next c member).1)]
  simp only [Option.bind_eq_bind,Option.bind_some,whole,exponent_power e stops,append_nil,
    natural_toDigits,length_nil]
  simp

lemma number_decimal (stops : Stops rest) : number (decimal d ++ rest) = some (d,rest) := by
  obtain ⟨mantissa,e⟩ := d
  rw [decimal,append_assoc]
  cases mantissa with
  | ofNat n =>
    rw [integer,number]
    · exact unsigned_append n e stops
    · intro tail same
      have head := congrArg List.head? same
      rw [head?_append_of_ne_nil _ Nat.toDigits_ne_nil] at head
      cases isDigit_of_toDigits (mem_of_mem_head? head)
  | negSucc n =>
    rw [integer,cons_append,number,unsigned_append (n + 1) e stops]
    rfl

lemma hexDigit_digitChar : ∀ d < 16,hexDigit (Nat.digitChar d) = some d := by decide

lemma escaped_cases (c : Char) : (∃ x,escaped c = ['\\',x] ∧ ∀ rest,escape (x :: rest) = some (c,rest)) ∨
    (c.toNat < 0x20 ∧ escaped c = ['\\','u','0','0',Nat.digitChar (c.toNat / 16),Nat.digitChar (c.toNat % 16)]) ∨
    (c ≠ '"' ∧ c ≠ '\\' ∧ ¬c.toNat < 0x20 ∧ escaped c = [c]) := by
  unfold escaped
  split_ifs with quote slash line carriage tab backspace form control
  · exact .inl ⟨_,rfl,fun rest => by rw [quote]; rfl⟩
  · exact .inl ⟨_,rfl,fun rest => by rw [slash]; rfl⟩
  · exact .inl ⟨_,rfl,fun rest => by rw [line]; rfl⟩
  · exact .inl ⟨_,rfl,fun rest => by rw [carriage]; rfl⟩
  · exact .inl ⟨_,rfl,fun rest => by rw [tab]; rfl⟩
  · exact .inl ⟨_,rfl,fun rest => by rw [backspace]; rfl⟩
  · exact .inl ⟨_,rfl,fun rest => by rw [form]; rfl⟩
  · exact .inr (.inl ⟨control,rfl⟩)
  · exact .inr (.inr ⟨quote,slash,control,rfl⟩)

lemma stringFrom_escaped (c : Char) (fuel : Nat) (rest : List Char) : stringFrom (fuel + 1) (escaped c ++ rest) =
      (stringFrom fuel rest).map (fun (s,rest) => (c :: s,rest)) := by
  rcases escaped_cases c with ⟨x,written,read⟩ | ⟨control,written⟩ | ⟨quote,slash,control,written⟩ <;> rw [written]
  · rw [cons_append,singleton_append,stringFrom,read]
    simp only [Option.bind_eq_bind,Option.bind_some]
    cases stringFrom fuel rest <;> rfl
  · have high := hexDigit_digitChar (c.toNat / 16) (by omega)
    have low := hexDigit_digitChar (c.toNat % 16) (by omega)
    have zero : hexDigit '0' = some 0 := by decide
    have code : ((0 * 16 + 0) * 16 + c.toNat / 16) * 16 + c.toNat % 16 = c.toNat := by omega
    have read : unicode ('0' :: '0' :: Nat.digitChar (c.toNat / 16) :: Nat.digitChar (c.toNat % 16) :: rest) =
        some (c,rest) := by
      simp only [unicode,hex4,high,low,zero,Option.bind_eq_bind,Option.bind_some,Option.pure_def,code]
      rw [if_neg (by omega),if_neg (by omega),Char.ofNat_toNat]
    rw [cons_append,cons_append,stringFrom,escape]
    simp only [cons_append,nil_append,read,Option.bind_eq_bind,Option.bind_some]
    cases stringFrom fuel rest <;> rfl
  · rw [singleton_append,stringFrom,if_neg quote,if_neg slash,if_neg control]
    cases stringFrom fuel rest <;> rfl

lemma escaped_length (c : Char) : 1 ≤ (escaped c).length := by
  rcases escaped_cases c with ⟨x,written,-⟩ | ⟨-,written⟩ | ⟨-,-,-,written⟩ <;> rw [written] <;> exact Nat.le_add_left 1 _

lemma stringFrom_flatMap (enough : s.length < fuel) (rest : List Char) :
    stringFrom fuel (s.flatMap escaped ++ '"' :: rest) = some (s,rest) := by
  induction s generalizing fuel with
  | nil =>
    obtain ⟨fuel,rfl⟩ : ∃ n,fuel = n + 1 := ⟨fuel - 1,by omega⟩
    rfl
  | cons c s ih =>
    simp only [length_cons] at enough
    obtain ⟨fuel,rfl⟩ : ∃ n,fuel = n + 1 := ⟨fuel - 1,by omega⟩
    rw [flatMap_cons,append_assoc,stringFrom_escaped,ih (by omega)]
    rfl

lemma string_flatMap (s rest : List Char) : string (s.flatMap escaped ++ '"' :: rest) = some (s,rest) := by
  apply stringFrom_flatMap
  have longer : s.length ≤ (s.flatMap escaped).length := by
    induction s with
    | nil => exact Nat.le_refl 0
    | cons c s ih =>
      have := escaped_length c
      simp only [flatMap_cons,length_append,length_cons]
      omega
  simp only [length_append,length_cons]
  omega

lemma skip_cons (rest : List Char) (mark : isSpace c = false) : skip (c :: rest) = c :: rest := by
  rw [skip,dropWhile_cons,mark]
  rfl

lemma decimal_head (rest : List Char) :
    ∃ c tail,decimal d ++ rest = c :: tail ∧ (c = '-' ∨ c.isDigit = true) := by
  rw [decimal]
  cases d.mantissa with
  | ofNat n =>
    cases ds : Nat.toDigits 10 n with
    | nil => exact absurd ds Nat.toDigits_ne_nil
    | cons c tail =>
      have member : c ∈ Nat.toDigits 10 n := by rw [ds]; exact mem_cons_self
      exact ⟨c,_,by rw [integer,ds]; rfl,.inr (isDigit_of_toDigits member)⟩
  | negSucc n => exact ⟨'-',_,rfl,.inl rfl⟩

lemma ne_of_number {mark : Char} (start : c = '-' ∨ c.isDigit = true) (sign : mark ≠ '-')
    (digit : mark.isDigit = false) : c ≠ mark := by
  rintro rfl
  obtain same | same := start
  · exact sign same
  · rw [digit] at same
    cases same

lemma isSpace_of_number (start : c = '-' ∨ c.isDigit = true) : isSpace c = false := by
  have other : ∀ mark : Char,mark ≠ '-' → mark.isDigit = false → decide (c = mark) = false :=
    fun mark sign digit => decide_eq_false (ne_of_number start sign digit)
  rw [isSpace,other ' ' (by decide) (by decide),other '\t' (by decide) (by decide),
    other '\n' (by decide) (by decide),other '\r' (by decide) (by decide)]
  rfl

lemma value_number (fuel : Nat) (d : Decimal) (stops : Stops rest) :
    value (fuel + 1) (decimal d ++ rest) = some (.number d,rest) := by
  obtain ⟨c,tail,same,start⟩ := decimal_head d rest
  have scanned := number_decimal d stops
  rw [same] at scanned ⊢
  rw [value,skip_cons _ (isSpace_of_number start)]
  split
  case h_7 => rw [scanned]; rfl
  all_goals
    rename_i equal
    exact absurd (List.cons.inj equal).1 (ne_of_number start (by decide) (by decide))

lemma compact_head (rest : List Char) :
    ∃ c tail,compact v ++ rest = c :: tail ∧ isSpace c = false ∧ c ≠ ']' := by
  cases v with
  | null => exact ⟨'n',_,rfl,by decide⟩
  | bool b =>
    cases b with
    | true => exact ⟨'t',_,rfl,by decide⟩
    | false => exact ⟨'f',_,rfl,by decide⟩
  | number d =>
    obtain ⟨c,tail,same,start⟩ := decimal_head d rest
    exact ⟨c,tail,same,isSpace_of_number start,ne_of_number start (by decide) (by decide)⟩
  | string s => exact ⟨'"',_,rfl,by decide⟩
  | array items =>
    cases items with
    | nil | cons v items => exact ⟨'[',_,rfl,by decide⟩
  | object ms =>
    cases ms with
    | nil | cons m ms => exact ⟨'\x7b',_,rfl,by decide⟩

lemma string_quoted (rest : List Char) :
    ∃ tail,quoted s ++ rest = '"' :: tail ∧ string tail = some (s,rest) := by
  refine ⟨s.flatMap escaped ++ '"' :: rest,?_,string_flatMap s rest⟩
  simp [quoted]

lemma moreItems_stops (items : List Value) (rest : List Char) : Stops (moreItems items ++ ']' :: rest) := by
  cases items with
  | nil | cons v items => exact stops_cons (by decide)

lemma moreMembers_stops (ms : List (List Char × Value)) (rest : List Char) :
    Stops (moreMembers ms ++ '\x7d' :: rest) := by
  cases ms with
  | nil | cons m ms => exact stops_cons (by decide)

/-- With so much fuel, each kind of text is read back, whatever follows it. -/
structure Reads (fuel : Nat) : Prop where
  value : ∀ (v : Value) (rest : List Char),2 * (compact v).length ≤ fuel → Stops rest →
    value fuel (compact v ++ rest) = some (v,rest)
  elements : ∀ (v : Value) (items : List Value) (rest : List Char),
    2 * ((compact v).length + (moreItems items).length) + 1 ≤ fuel →
    elements fuel (compact v ++ (moreItems items ++ ']' :: rest)) = some (v :: items,rest)
  members : ∀ (key : List Char) (v : Value) (ms : List (List Char × Value)) (rest : List Char),
    2 * ((compact v).length + (moreMembers ms).length) + 1 ≤ fuel →
    members fuel (quoted key ++ ':' :: (compact v ++ (moreMembers ms ++ '\x7d' :: rest))) =
      some ((key,v) :: ms,rest)

section
variable (reads : Reads fuel)
include reads

lemma Reads.array (v : Value) (items : List Value) (rest : List Char)
    (enough : 2 * ((compact v).length + (moreItems items).length) + 1 ≤ fuel) :
    JsonText.value (fuel + 1) ('[' :: (compact v ++ (moreItems items ++ ']' :: rest))) =
      some (.array (v :: items),rest) := by
  have inner := reads.elements v items rest enough
  obtain ⟨c,tail,same,mark,bracket⟩ := compact_head v (moreItems items ++ ']' :: rest)
  rw [same] at inner ⊢
  rw [JsonText.value,skip_cons _ (by decide)]
  simp only [skip_cons tail mark]
  split
  · rename_i equal
    exact absurd (List.cons.inj equal).1 bracket
  · rw [inner]
    rfl

lemma Reads.object (key : List Char) (v : Value) (ms : List (List Char × Value)) (rest : List Char)
    (enough : 2 * ((compact v).length + (moreMembers ms).length) + 1 ≤ fuel) : JsonText.value (fuel + 1)
        ('\x7b' :: (quoted key ++ ':' :: (compact v ++ (moreMembers ms ++ '\x7d' :: rest)))) =
      some (.object ((key,v) :: ms),rest) := by
  have inner := reads.members key v ms rest enough
  obtain ⟨tail,same,-⟩ := string_quoted key (':' :: (compact v ++ (moreMembers ms ++ '\x7d' :: rest)))
  rw [same] at inner ⊢
  rw [JsonText.value,skip_cons _ (by decide)]
  simp only [skip_cons tail (by decide : isSpace '"' = false)]
  split
  · rename_i equal
    exact absurd (List.cons.inj equal).1 (by decide)
  · rw [inner]
    rfl

lemma Reads.value_succ (v : Value) (rest : List Char)
    (enough : 2 * (compact v).length ≤ fuel + 1) (stops : Stops rest) :
    JsonText.value (fuel + 1) (compact v ++ rest) = some (v,rest) := by
  match v with
  | .null | .bool true | .bool false => rfl
  | .number d =>
    exact value_number fuel d stops
  | .string s =>
    obtain ⟨tail,same,scanned⟩ := string_quoted s rest
    rw [compact,same,JsonText.value,skip_cons _ (by decide)]
    simp only [scanned,Option.map_some]
  | .array [] => rfl
  | .array (v :: items) =>
    simp only [compact,length_cons,length_append] at enough
    simpa [compact] using reads.array v items rest (by omega)
  | .object [] => rfl
  | .object ((key,v) :: ms) =>
    simp only [compact,length_cons,length_append] at enough
    simpa [compact] using reads.object key v ms rest (by omega)

lemma Reads.elements_succ (v : Value) (items : List Value)
    (rest : List Char) (enough : 2 * ((compact v).length + (moreItems items).length) + 1 ≤ fuel + 1) :
    JsonText.elements (fuel + 1) (compact v ++ (moreItems items ++ ']' :: rest)) = some (v :: items,rest) := by
  rw [JsonText.elements,reads.value v _ (by omega) (moreItems_stops items rest)]
  match items with
  | [] => rfl
  | w :: items =>
    simp only [moreItems,length_cons,length_append] at enough
    simp only [moreItems,cons_append,append_assoc,Option.bind_eq_bind,Option.bind_some,
      skip_cons _ (by decide : isSpace ',' = false),reads.elements w items rest (by omega),Option.pure_def]

lemma Reads.members_succ (key : List Char) (v : Value) (ms : List (List Char × Value)) (rest : List Char)
    (enough : 2 * ((compact v).length + (moreMembers ms).length) + 1 ≤ fuel + 1) :
    JsonText.members (fuel + 1) (quoted key ++ ':' :: (compact v ++ (moreMembers ms ++ '\x7d' :: rest))) =
      some ((key,v) :: ms,rest) := by
  obtain ⟨tail,same,scanned⟩ := string_quoted key (':' :: (compact v ++ (moreMembers ms ++ '\x7d' :: rest)))
  have first := reads.value v _ (by omega) (moreMembers_stops ms rest)
  rw [same,JsonText.members,skip_cons _ (by decide)]
  simp only [scanned,Option.bind_eq_bind,Option.bind_some,skip_cons _ (by decide : isSpace ':' = false),first]
  match ms with
  | [] => rfl
  | (name,w) :: ms =>
    simp only [moreMembers,length_cons,length_append] at enough
    simp only [moreMembers,cons_append,append_assoc,Option.bind_some,
      skip_cons _ (by decide : isSpace ',' = false),reads.members name w ms rest (by omega),Option.pure_def]

end

lemma reads_compact (fuel : Nat) : Reads fuel := by
  induction fuel with
  | zero =>
    refine ⟨fun v rest enough => ?_,fun v items rest enough => by omega,fun key v ms rest enough => by omega⟩
    obtain ⟨c,tail,same,-⟩ := compact_head v []
    rw [append_nil] at same
    rw [same,length_cons] at enough
    omega
  | succ fuel ih => exact ⟨ih.value_succ,ih.elements_succ,ih.members_succ⟩

lemma parse_compact : parse (compact v) = some v := by
  have whole := (reads_compact (2 * (compact v).length + 2)).value v [] (by omega) stops_nil
  rw [append_nil] at whole
  rw [parse,whole]
  rfl

end JsonText
