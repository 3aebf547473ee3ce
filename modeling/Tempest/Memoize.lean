import Mathlib.Data.Char
import Mathlib.Data.List.Lex
import Tempest.Lib.Association
import Tempest.Lib.ByteText
import Tempest.Lib.Quoting

/-! The keys of memoized steps. A map is spelled in the order of its keys, with the keys of
maps of maps quoted as Go quotes strings and everything else marshaled, and the key hashes
the names of the step before that text. The text of the input can be read back, the names
only as far as their colons can be told apart from those between them. -/
namespace Tempest.Memoize
open Association Quoting Function List

abbrev Str := List Char

/-- JSON values, with numbers of any kind. The members of an object are kept in the order
of their keys. -/
inductive Value (N : Type) where
  | null
  | bool (value : Bool)
  | number (value : N)
  | text (value : Str)
  | array (items : List (Value N))
  | object (members : List (Str × Value N))

def numerals : List Char := ['0','1','2','3','4','5','6','7','8','9','+','-','.','e','E']

/-- How numbers are marshaled. Numbers are the same if their texts are. -/
structure Numbers (N : Type) where
  text : N → Str
  injective : Function.Injective text
  some : ∀ n,text n ≠ []
  numeral : ∀ n,∀ x ∈ text n,x ∈ numerals

def jsonString : Code where
  bare c := 32 ≤ c.toNat && !(['"','\\','<','>','&'].contains c) && c.toNat != 0x2028 && c.toNat != 0x2029
  letters := [('\x08','b'),('\x0c','f'),('\n','n'),('\r','r'),('\t','t')]
  wide _ := ('u',4)
  letters_inj := by decide
  letters_bare := by decide
  wide_bare _ := by decide
  apart p member _ := by
    revert p
    decide
  width _ _ _ := rfl
  fits := by
    intro c escaped
    have known : ['"','\\','<','>','&'].all (fun x => x.toNat < 16 ^ 4) = true := by decide
    change c.toNat < 16 ^ 4
    by_contra large
    have plain : ['"','\\','<','>','&'].contains c = false := by
      rw [Bool.eq_false_iff]
      intro member
      exact large (of_decide_eq_true (List.all_eq_true.mp known c (List.contains_iff_mem.mp member)))
    simp only [plain,Bool.not_false,Bool.and_true,Bool.and_eq_false_iff,decide_eq_false_iff_not,bne_eq_false_iff_eq] at escaped
    omega

def quote (isPrint : Char → Bool) : Code where
  bare := isPrint
  letters := [('\x07','a'),('\x08','b'),('\x0c','f'),('\n','n'),('\r','r'),('\t','t'),('\x0b','v')]
  wide c := if c.toNat < 32 ∨ c.toNat = 0x7f then ('x',2) else if c.toNat < 0x10000 then ('u',4) else ('U',8)
  letters_inj := by decide
  letters_bare := by decide
  wide_bare := by
    intro c
    split_ifs <;> decide
  apart := by
    intro p member c
    revert p
    split_ifs <;> decide
  width := by
    intro a b
    split_ifs <;> decide
  fits := by
    intro c _
    have valid : c.toNat < 0x110000 := by
      rcases c.valid with low | high
      · exact low.trans (by decide)
      · exact high.2
    split_ifs <;> dsimp only <;> omega

def joinStrings (elems : List Str) (sep : Str) : Str :=
  match elems with
  | [] => []
  | first :: rest => rest.foldl (fun out s => out ++ (sep ++ s)) first

/-- The order in which the map at each place is ranged over. A place is the way to it by
keys. -/
structure Ranges where
  order : List Str → List Str → List Str
  perm : ∀ place keys,(order place keys).Perm keys

section Text

variable {N : Type} (numbers : Numbers N) (isPrint : Char → Bool) (ranges : Ranges)

mutual

/-- A text of a value. The keys are spelled as given as far as only objects lie around
them, and as JSON below an array. -/
def spell (key : Code) : Value N → Str
  | .null => ['n','u','l','l']
  | .bool true => ['t','r','u','e']
  | .bool false => ['f','a','l','s','e']
  | .number n => numbers.text n
  | .text s => jsonString.quoted s
  | .array items => '[' :: joinStrings (spellItems items) [','] ++ [']']
  | .object members => '\x7b' :: joinStrings (spellMembers key members) [','] ++ ['\x7d']

def spellItems : List (Value N) → List Str
  | [] => []
  | item :: rest => spell jsonString item :: spellItems rest

def spellMembers (key : Code) : List (Str × Value N) → List Str
  | [] => []
  | (k,value) :: rest => (key.quoted k ++ ':' :: spell key value) :: spellMembers key rest

end

def marshal (value : Value N) : Str := spell numbers jsonString value

/-- The pairs of a map whose values have these texts, for the order in which its keys were
collected. -/
def braced (order : List Str) (texts : List (Str × Str)) : Str :=
  if texts = [] then ['\x7b','\x7d']
  else
    let pairs := (order.insertionSort (· ≤ ·)).map (fun k => (quote isPrint).quoted k ++ ':' :: (find k texts).getD [])
    '\x7b' :: joinStrings pairs [','] ++ ['\x7d']

mutual

def canonicalizeValue (place : List Str) : Value N → Str
  | .object members => braced isPrint (ranges.order place (keys members)) (canonicalizeMembers place members)
  | value => marshal numbers value

def canonicalizeMembers (place : List Str) : List (Str × Value N) → List (Str × Str)
  | [] => []
  | (k,value) :: rest => (k,canonicalizeValue (place ++ [k]) value) :: canonicalizeMembers place rest

end

def canonicalizeMap (place : List Str) (m : List (Str × Value N)) : Str :=
  braced isPrint (ranges.order place (keys m)) (canonicalizeMembers numbers isPrint ranges place m)

end Text

mutual

def Proper {N : Type} : Value N → Prop
  | .array items => ProperItems items
  | .object members => Sorted members ∧ ProperMembers members
  | _ => True

def ProperItems {N : Type} : List (Value N) → Prop
  | [] => True
  | item :: rest => Proper item ∧ ProperItems rest

def ProperMembers {N : Type} : List (Str × Value N) → Prop
  | [] => True
  | (_,value) :: rest => Proper value ∧ ProperMembers rest

end

@[ext]
structure Computation (N : Type) where
  ns : Str
  workflow : Str
  stepID : Str
  input : List (Str × Value N)
  proper : Proper (.object input)

section ComputeKey

variable {N : Type} (numbers : Numbers N) (isPrint : Char → Bool) (ranges : Ranges) (sum256 : List UInt8 → List UInt8)

def raw (c : Computation N) : Str :=
  c.ns ++ ':' :: c.workflow ++ ':' :: c.stepID ++ ':' :: canonicalizeMap numbers isPrint ranges [] c.input

def computeKey (c : Computation N) : List UInt8 :=
  ByteText.hex (sum256 ((raw numbers isPrint ranges c).flatMap String.utf8EncodeChar))

end ComputeKey

section Order

variable {N : Type} (numbers : Numbers N) (isPrint : Char → Bool) (ranges : Ranges)

lemma braced_eq {order : List Str} {texts : List (Str × Str)} (sorted : Sorted texts) (perm : order.Perm (keys texts)) :
    braced isPrint order texts =
      '\x7b' :: joinStrings (texts.map (fun entry => (quote isPrint).quoted entry.1 ++ ':' :: entry.2)) [','] ++ ['\x7d'] := by
  rw [braced]
  split_ifs with empty
  · rw [empty]
    rfl
  · have pairs : (keys texts).map (fun k => (quote isPrint).quoted k ++ ':' :: (find k texts).getD []) =
        texts.map (fun entry => (quote isPrint).quoted entry.1 ++ ':' :: entry.2) := by
      rw [Association.keys,map_map]
      apply map_congr_left
      intro entry member
      rw [comp_apply,find_of_mem sorted member,Option.getD_some]
    rw [sort_keys sorted perm,pairs]

mutual

lemma canonicalizeValue_eq (place : List Str) : ∀ value : Value N,Proper value →
    canonicalizeValue numbers isPrint ranges place value = spell numbers (quote isPrint) value
  | .null,_ | .bool true,_ | .bool false,_ | .number _,_ | .text _,_ | .array _,_ => rfl
  | .object members,proper => by
    obtain ⟨sorted,below⟩ := proper
    obtain ⟨same,pairs⟩ := canonicalizeMembers_eq place members below
    rw [canonicalizeValue,braced_eq isPrint (sorted.of_keys same.symm) (same ▸ ranges.perm _ _),pairs,spell]

lemma canonicalizeMembers_eq (place : List Str) : ∀ members : List (Str × Value N),ProperMembers members →
    keys (canonicalizeMembers numbers isPrint ranges place members) = keys members ∧
    (canonicalizeMembers numbers isPrint ranges place members).map
      (fun entry => (quote isPrint).quoted entry.1 ++ ':' :: entry.2) = spellMembers numbers (quote isPrint) members
  | [],_ => ⟨rfl,rfl⟩
  | (k,value) :: rest,proper => by
    obtain ⟨here,later⟩ := proper
    obtain ⟨same,pairs⟩ := canonicalizeMembers_eq place rest later
    refine ⟨congrArg (List.cons k) same,?_⟩
    rw [canonicalizeMembers,map_cons,pairs,canonicalizeValue_eq (place ++ [k]) value here,spellMembers]

end

lemma canonicalizeMap_eq (place : List Str) {m : List (Str × Value N)} (proper : Proper (.object m)) :
    canonicalizeMap numbers isPrint ranges place m = spell numbers (quote isPrint) (.object m) :=
  canonicalizeValue_eq numbers isPrint ranges place (.object m) proper

end Order

lemma joinStrings_cons (first : Str) (rest : List Str) :
    joinStrings (first :: rest) [','] = first ++ rest.flatMap (fun s => ',' :: s) := by
  induction rest generalizing first with
  | nil => simp [joinStrings]
  | cons next rest ih =>
    have step : joinStrings (first :: next :: rest) [','] = joinStrings ((first ++ ',' :: next) :: rest) [','] := rfl
    rw [step,ih,flatMap_cons,append_assoc]

section Reading

variable {N : Type} (numbers : Numbers N)

/-- What a value is, as far as the first character of its text tells. -/
inductive Kind
  | null
  | bool (value : Bool)
  | number
  | text
  | array
  | object

def Value.kind : Value N → Kind
  | .null => .null
  | .bool value => .bool value
  | .number _ => .number
  | .text _ => .text
  | .array _ => .array
  | .object _ => .object

def lead (x : Char) : Option Kind :=
  if x ∈ numerals then some .number
  else if x = 'n' then some .null
  else if x = 't' then some (.bool true)
  else if x = 'f' then some (.bool false)
  else if x = '"' then some .text
  else if x = '[' then some .array
  else if x = '\x7b' then some .object
  else none

lemma spell_lead (key : Code) (value : Value N) :
    ∃ x rest,spell numbers key value = x :: rest ∧ lead x = some value.kind := by
  cases value with
  | null => exact ⟨_,_,rfl,rfl⟩
  | bool value => cases value <;> exact ⟨_,_,rfl,rfl⟩
  | number n =>
    obtain ⟨x,rest,text⟩ := exists_cons_of_ne_nil (numbers.some n)
    have numeral := numbers.numeral n x (by rw [text]; exact mem_cons_self)
    exact ⟨x,rest,text,if_pos numeral⟩
  | text s | array items | object members => exact ⟨_,_,rfl,rfl⟩

lemma kind_eq {key : Code} {v w : Value N} {rest rest' : Str}
    (same : spell numbers key v ++ rest = spell numbers key w ++ rest') : v.kind = w.kind := by
  obtain ⟨x,_,left,kind⟩ := spell_lead numbers key v
  obtain ⟨y,_,right,kind'⟩ := spell_lead numbers key w
  rw [left,right] at same
  rw [head_eq_of_cons_eq same,kind'] at kind
  exact (Option.some.inj kind).symm

def Delimited (rest : Str) : Prop := ∀ x ∈ rest.head?,x ∉ numerals

lemma delimited_comma (texts : List Str) (rest : Str) {close : Char} (stop : close ∉ numerals) :
    Delimited (texts.flatMap (fun s => ',' :: s) ++ close :: rest) := by
  intro x first
  cases texts with
  | nil =>
    cases first
    exact stop
  | cons text texts =>
    cases first
    decide

lemma numerals_inj {a b rest rest' : Str} (left : ∀ x ∈ a,x ∈ numerals) (right : ∀ x ∈ b,x ∈ numerals)
    (stop : Delimited rest) (stop' : Delimited rest') (same : a ++ rest = b ++ rest') : a = b ∧ rest = rest' := by
  obtain ⟨middle,split,follows⟩ | ⟨middle,split,follows⟩ := append_eq_append_iff.mp same
  · cases middle with
    | nil => simp_all
    | cons x middle => exact absurd (right x (by simp [split])) (stop x (by simp [follows]))
  · cases middle with
    | nil => simp_all
    | cons x middle => exact absurd (left x (by simp [split])) (stop' x (by simp [follows]))

lemma joinStrings_inj {texts texts' : List Str} {close : Char} {rest rest' : Str}
    (starts : ∀ text ∈ texts,∃ x more,text = x :: more ∧ x ≠ close)
    (starts' : ∀ text ∈ texts',∃ x more,text = x :: more ∧ x ≠ close)
    (same : joinStrings texts [','] ++ close :: rest = joinStrings texts' [','] ++ close :: rest') :
    texts.flatMap (fun s => ',' :: s) ++ close :: rest = texts'.flatMap (fun s => ',' :: s) ++ close :: rest' := by
  cases texts with
  | nil =>
    cases texts' with
    | nil => exact same
    | cons text texts' =>
      obtain ⟨x,more,first,other⟩ := starts' text mem_cons_self
      rw [joinStrings_cons,first] at same
      exact absurd (head_eq_of_cons_eq same).symm other
  | cons text texts =>
    cases texts' with
    | nil =>
      obtain ⟨x,more,first,other⟩ := starts text mem_cons_self
      rw [joinStrings_cons,first] at same
      exact absurd (head_eq_of_cons_eq same) other
    | cons text' texts' =>
      rw [joinStrings_cons,joinStrings_cons] at same
      exact congrArg (List.cons ',') same

lemma spellItems_starts (items : List (Value N)) :
    ∀ text ∈ spellItems numbers items,∃ x more,text = x :: more ∧ x ≠ ']' := by
  induction items with
  | nil => exact fun text member => absurd member not_mem_nil
  | cons item items ih =>
    intro text member
    rcases mem_cons.mp member with rfl | later
    · obtain ⟨x,more,first,kind⟩ := spell_lead numbers jsonString item
      refine ⟨x,more,first,?_⟩
      rintro rfl
      cases kind
    · exact ih text later

lemma spellMembers_starts (key : Code) (members : List (Str × Value N)) :
    ∀ text ∈ spellMembers numbers key members,∃ x more,text = x :: more ∧ x ≠ '\x7d' := by
  induction members with
  | nil => exact fun text member => absurd member not_mem_nil
  | cons entry members ih =>
    intro text member
    rcases mem_cons.mp member with rfl | later
    · exact ⟨_,_,rfl,by decide⟩
    · exact ih text later

mutual

lemma spell_inj (key : Code) : ∀ (v w : Value N) {rest rest' : Str},Delimited rest → Delimited rest' →
    spell numbers key v ++ rest = spell numbers key w ++ rest' → v = w ∧ rest = rest'
  | .null,w,_,_,_,_,same => by
    cases w with
    | null => exact ⟨rfl,append_cancel_left same⟩
    | _ => cases kind_eq numbers same
  | .bool a,w,_,_,_,_,same => by
    cases w with
    | bool b =>
      cases kind_eq numbers same
      exact ⟨rfl,append_cancel_left same⟩
    | _ => cases kind_eq numbers same
  | .number m,w,_,_,stop,stop',same => by
    cases w with
    | number n =>
      obtain ⟨text,after⟩ := numerals_inj (numbers.numeral m) (numbers.numeral n) stop stop' same
      exact ⟨congrArg _ (numbers.injective text),after⟩
    | _ => cases kind_eq numbers same
  | .text s,w,_,_,_,_,same => by
    cases w with
    | text t =>
      obtain ⟨text,after⟩ := jsonString.quoted_inj same
      exact ⟨congrArg _ text,after⟩
    | _ => cases kind_eq numbers same
  | .array items,w,_,_,_,_,same => by
    cases w with
    | array items' =>
      simp only [spell,cons_append,append_assoc,List.cons.injEq,true_and,nil_append] at same
      have commas := joinStrings_inj (spellItems_starts numbers items) (spellItems_starts numbers items') same
      obtain ⟨all,after⟩ := spellItems_inj items items' commas
      exact ⟨congrArg _ all,after⟩
    | _ => cases kind_eq numbers same
  | .object members,w,_,_,_,_,same => by
    cases w with
    | object members' =>
      simp only [spell,cons_append,append_assoc,List.cons.injEq,true_and,nil_append] at same
      have commas := joinStrings_inj (spellMembers_starts numbers key members) (spellMembers_starts numbers key members') same
      obtain ⟨all,after⟩ := spellMembers_inj key members members' commas
      exact ⟨congrArg _ all,after⟩
    | _ => cases kind_eq numbers same

lemma spellItems_inj : ∀ (items items' : List (Value N)) {rest rest' : Str},
    (spellItems numbers items).flatMap (fun s => ',' :: s) ++ ']' :: rest =
      (spellItems numbers items').flatMap (fun s => ',' :: s) ++ ']' :: rest' → items = items' ∧ rest = rest'
  | [],items',_,_,same => by
    cases items' with
    | nil => exact ⟨rfl,tail_eq_of_cons_eq same⟩
    | cons _ _ => cases same
  | item :: items,items',_,_,same => by
    cases items' with
    | nil => cases same
    | cons item' items' =>
      simp only [spellItems,flatMap_cons,cons_append,append_assoc,List.cons.injEq,true_and] at same
      have stop : ∀ items rest,Delimited ((spellItems numbers items).flatMap (fun s => ',' :: s) ++ ']' :: rest) :=
        fun items rest => delimited_comma _ rest (by decide)
      obtain ⟨first,later⟩ := spell_inj jsonString item item' (stop _ _) (stop _ _) same
      obtain ⟨others,after⟩ := spellItems_inj items items' later
      exact ⟨by rw [first,others],after⟩

lemma spellMembers_inj (key : Code) : ∀ (members members' : List (Str × Value N)) {rest rest' : Str},
    (spellMembers numbers key members).flatMap (fun s => ',' :: s) ++ '\x7d' :: rest =
      (spellMembers numbers key members').flatMap (fun s => ',' :: s) ++ '\x7d' :: rest' →
    members = members' ∧ rest = rest'
  | [],members',_,_,same => by
    cases members' with
    | nil => exact ⟨rfl,tail_eq_of_cons_eq same⟩
    | cons _ _ => cases same
  | (k,value) :: members,members',_,_,same => by
    cases members' with
    | nil => cases same
    | cons entry members' =>
      obtain ⟨k',value'⟩ := entry
      simp only [spellMembers,flatMap_cons,cons_append,append_assoc,List.cons.injEq,true_and] at same
      have stop : ∀ members rest,
          Delimited ((spellMembers numbers key members).flatMap (fun s => ',' :: s) ++ '\x7d' :: rest) :=
        fun members rest => delimited_comma _ rest (by decide)
      obtain ⟨name,same⟩ := key.quoted_inj same
      obtain ⟨first,later⟩ := spell_inj key value value' (stop _ _) (stop _ _) (tail_eq_of_cons_eq same)
      obtain ⟨others,after⟩ := spellMembers_inj key members members' later
      exact ⟨by rw [name,first,others],after⟩

end

lemma balanced_joinStrings {texts : List Str} (all : ∀ text ∈ texts,Balanced text) :
    Balanced (joinStrings texts [',']) := by
  have tail : ∀ texts : List Str,(∀ text ∈ texts,Balanced text) → Balanced (texts.flatMap (fun s => ',' :: s)) := by
    intro texts all
    induction texts with
    | nil => rfl
    | cons text texts ih =>
      have comma : Balanced [','] := rfl
      have here := all text mem_cons_self
      exact (comma.append here).append (ih (fun t member => all t (mem_cons_of_mem _ member)))
  cases texts with
  | nil => rfl
  | cons text texts =>
    rw [joinStrings_cons]
    exact (all text mem_cons_self).append (tail texts (fun t member => all t (mem_cons_of_mem _ member)))

mutual

lemma balanced_spell (key : Code) : ∀ value : Value N,Balanced (spell numbers key value)
  | .null | .bool true | .bool false => rfl
  | .number n => by
    have inert : numerals.all (fun x => Inert x) = true := by decide
    exact balanced_inert (fun x member => of_decide_eq_true (all_eq_true.mp inert x (numbers.numeral n x member)))
  | .text s => balanced_quoted jsonString s
  | .array items => by
    have inner := balanced_joinStrings (balanced_spellItems items)
    have opening : Balanced ['['] := rfl
    have closing : Balanced [']'] := rfl
    exact (opening.append inner).append closing
  | .object members => (balanced_joinStrings (balanced_spellMembers key members)).braces

lemma balanced_spellItems : ∀ items : List (Value N),∀ text ∈ spellItems numbers items,Balanced text
  | [],text,member => absurd member not_mem_nil
  | item :: items,text,member => by
    rcases mem_cons.mp member with rfl | later
    · exact balanced_spell jsonString item
    · exact balanced_spellItems items text later

lemma balanced_spellMembers (key : Code) :
    ∀ members : List (Str × Value N),∀ text ∈ spellMembers numbers key members,Balanced text
  | [],text,member => absurd member not_mem_nil
  | (k,value) :: members,text,member => by
    rcases mem_cons.mp member with rfl | later
    · have colon : Balanced [':'] := rfl
      exact (balanced_quoted key k).append (colon.append (balanced_spell key value))
    · exact balanced_spellMembers key members text later

end

lemma object_tail {key : Code} {m m' : List (Str × Value N)} {middle : Str}
    (same : ':' :: spell numbers key (.object m) = middle ++ ':' :: spell numbers key (.object m')) :
    middle = [] ∧ m = m' := by
  cases middle with
  | nil =>
    have texts : spell numbers key (.object m) ++ [] = spell numbers key (.object m') ++ [] := by
      rw [append_nil,append_nil]
      exact tail_eq_of_cons_eq same
    have none : Delimited [] := fun x first => absurd first (by simp)
    exact ⟨rfl,Value.object.inj (spell_inj numbers key _ _ none none texts).1⟩
  | cons x middle =>
    have inner := balanced_joinStrings (balanced_spellMembers numbers key m)
    have tail := balanced_spell numbers key (.object m')
    exact absurd (tail_eq_of_cons_eq same) (inner.no_tail tail (cons_ne_nil _ _))

lemma object_inj {key : Code} {m m' : List (Str × Value N)} {before before' : Str}
    (same : before ++ ':' :: spell numbers key (.object m) = before' ++ ':' :: spell numbers key (.object m')) :
    before = before' ∧ m = m' := by
  obtain ⟨middle,split,follows⟩ | ⟨middle,split,follows⟩ := append_eq_append_iff.mp same
  · obtain ⟨rfl,members⟩ := object_tail numbers follows
    exact ⟨by rw [split,append_nil],members⟩
  · obtain ⟨rfl,members⟩ := object_tail numbers follows
    exact ⟨by rw [split,append_nil],members.symm⟩

end Reading

section Identity

variable {N : Type} {numbers : Numbers N} {isPrint : Char → Bool} {ranges ranges' : Ranges}
variable {sum256 : List UInt8 → List UInt8}

def Computation.names (c : Computation N) : Str := ByteText.joined ':' [c.ns,c.workflow] c.stepID

def Computation.pieces (c : Computation N) : List Str :=
  c.ns.splitOn ':' ++ (c.workflow.splitOn ':' ++ c.stepID.splitOn ':')

def Computation.colons (c : Computation N) : Nat × Nat × Nat := (c.ns.count ':',c.workflow.count ':',c.stepID.count ':')

/-- The inputs are the same and the names have the same pieces in the same order, but the
names are cut at different colons. -/
def Regrouped (a b : Computation N) : Prop := a.input = b.input ∧ a.pieces = b.pieces ∧ a.colons ≠ b.colons

lemma names_splitOn (c : Computation N) : c.names.splitOn ':' = c.pieces := by
  simp only [Computation.names,ByteText.joined,foldr_cons,foldr_nil,splitOn_append_cons_self,
    Computation.pieces]

lemma names_eq_iff (a b : Computation N) : a.names = b.names ↔ a.pieces = b.pieces := by
  rw [← names_splitOn,← names_splitOn]
  constructor
  · exact congrArg _
  · intro same
    have left : [':'].intercalate (a.names.splitOn ':') = a.names := intercalate_splitOn ':'
    rw [← left,same,intercalate_splitOn]

lemma eq_of_colons {a b : Computation N} (names : a.names = b.names) (input : a.input = b.input)
    (colons : a.colons = b.colons) : a = b := by
  simp only [Computation.colons,Prod.mk.injEq] at colons
  obtain ⟨parts,stepID⟩ := ByteText.joined_injective (.cons colons.1 (.cons colons.2.1 .nil)) names
  simp only [List.cons.injEq,and_true] at parts
  exact Computation.ext parts.1 parts.2 stepID input

lemma raw_eq (c : Computation N) :
    raw numbers isPrint ranges c = c.names ++ ':' :: spell numbers (quote isPrint) (.object c.input) := by
  rw [raw,canonicalizeMap_eq numbers isPrint ranges [] c.proper,Computation.names]
  simp [ByteText.joined]

lemma utf8_injective : Injective (fun text : Str => text.flatMap String.utf8EncodeChar) := by
  intro a b same
  have left : (a.flatMap String.utf8EncodeChar).toByteArray.utf8Decode? = some a.toArray := utf8Decode?_utf8Encode
  have right : (b.flatMap String.utf8EncodeChar).toByteArray.utf8Decode? = some b.toArray := utf8Decode?_utf8Encode
  dsimp only at same
  rw [same,right] at left
  simpa using left.symm

lemma computeKey_eq_iff (injective : Injective sum256) (a b : Computation N) :
    computeKey numbers isPrint ranges sum256 a = computeKey numbers isPrint ranges' sum256 b ↔
      a.names = b.names ∧ a.input = b.input := by
  constructor
  · intro same
    have texts := utf8_injective (injective (ByteText.hex_injective same))
    rw [raw_eq,raw_eq] at texts
    exact object_inj numbers texts
  · rintro ⟨names,input⟩
    rw [computeKey,computeKey,raw_eq,raw_eq,names,input]

/-- A key identifies the computation, whatever the orders in which maps are ranged over,
unless the names can be cut at other colons. -/
theorem identified_iff_not_regrouped (injective : Function.Injective sum256) (a b : Computation N) :
    (computeKey numbers isPrint ranges sum256 a = computeKey numbers isPrint ranges' sum256 b ↔ a = b) ↔ ¬ Regrouped a b := by
  rw [computeKey_eq_iff injective]
  constructor
  · rintro identified ⟨input,pieces,colons⟩
    have same := identified.mp ⟨(names_eq_iff a b).mpr pieces,input⟩
    exact colons (by rw [same])
  · intro grouped
    refine ⟨fun ⟨names,input⟩ => ?_,fun same => same ▸ ⟨rfl,rfl⟩⟩
    by_contra different
    have colons := fun colons => different (eq_of_colons names input colons)
    exact grouped ⟨input,(names_eq_iff a b).mp names,colons⟩

def bits : Numbers Bool where
  text b := if b then ['1'] else ['0']
  injective a b := by
    revert a b
    decide
  some := by decide
  numeral b x member := by
    cases b <;> rw [List.mem_singleton.mp member] <;> decide

theorem identified_two_maps :
    let inOrder : Ranges := ⟨fun _ keys => keys,fun _ keys => .refl keys⟩
    let backwards : Ranges := ⟨fun _ keys => keys.reverse,fun _ keys => keys.reverse_perm⟩
    let input : List (Str × Value Bool) := [(['n'],.number true),(['t'],.array [.null])]
    let a : Computation Bool := ⟨['a',':','b'],['c'],['d'],input,⟨(by unfold Sorted; decide),trivial,⟨trivial,trivial⟩,trivial⟩⟩
    let b : Computation Bool := ⟨['a',':','b'],['c',':'],['d'],input,⟨(by unfold Sorted; decide),trivial,⟨trivial,trivial⟩,trivial⟩⟩
    Function.Injective (id : List UInt8 → List UInt8) ∧ ¬ Regrouped a b ∧
      (computeKey bits Char.isAlphanum inOrder id a = computeKey bits Char.isAlphanum backwards id b ↔ a = b) := by
  intro inOrder backwards input a b
  have grouped : ¬ Regrouped a b := fun ⟨_,pieces,_⟩ => absurd pieces (by decide)
  exact ⟨injective_id,grouped,(identified_iff_not_regrouped injective_id a b).mpr grouped⟩

/-- Namespace "a:b" with workflow "c" has the key of namespace "a" with workflow "b:c". -/
theorem tenants_share_key :
    let inOrder : Ranges := ⟨fun _ keys => keys,fun _ keys => .refl keys⟩
    let input : List (Str × Value Bool) := [(['n'],.number true)]
    let a : Computation Bool := ⟨['a',':','b'],['c'],['d'],input,⟨pairwise_singleton _ _,trivial,trivial⟩⟩
    let b : Computation Bool := ⟨['a'],['b',':','c'],['d'],input,⟨pairwise_singleton _ _,trivial,trivial⟩⟩
    ¬ (computeKey bits Char.isAlphanum inOrder id a = computeKey bits Char.isAlphanum inOrder id b ↔ a = b) := by
  intro inOrder input a b identified
  have same := identified.mp rfl
  exact absurd (congrArg Computation.ns same) (by decide)

end Identity

end Tempest.Memoize
