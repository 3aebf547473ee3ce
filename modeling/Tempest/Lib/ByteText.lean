import Mathlib.Data.List.Basic
import Mathlib.Data.List.Count

/-! Texts of bytes: numbers in decimal, bytes in hexadecimal, and parts joined by a separator.
A joined text determines its parts as soon as it is known how many separators each part has. -/
namespace ByteText
open List

def decimal (n : Nat) : List UInt8 := (Nat.toDigits 10 n).map (fun c => c.toNat.toUInt8)

def value (text : List UInt8) : Nat := text.foldl (fun high b => high * 10 + (b.toNat - 48)) 0

variable (n : Nat)

lemma decimal_step :
    decimal n = if n < 10 then [(48 + n).toUInt8] else decimal (n / 10) ++ [(48 + n % 10).toUInt8] := by
  have digit : ∀ d < 10,(Nat.digitChar d).toNat.toUInt8 = (48 + d).toUInt8 := by decide
  rw [decimal,decimal,Nat.toDigits_eq_if (by decide)]
  split_ifs with small
  · rw [map_singleton,digit n small]
  · rw [map_append,map_singleton,digit _ (Nat.mod_lt _ (by decide))]

lemma value_decimal : value (decimal n) = n := by
  have digit : ∀ d < 10,((48 + d).toUInt8).toNat - 48 = d := by decide
  induction n using Nat.strongRecOn with
  | ind n ih =>
    rw [decimal_step]
    split_ifs with small
    · rw [value,foldl_cons,foldl_nil,digit n small]
      omega
    · have high := ih (n / 10) (by omega)
      rw [value] at high
      rw [value,foldl_append,foldl_cons,foldl_nil,digit _ (Nat.mod_lt _ (by decide))]
      omega

lemma decimal_injective : Function.Injective decimal := Function.LeftInverse.injective value_decimal

variable {b : UInt8} {text : List UInt8}

lemma decimal_digits {n : Nat} (member : b ∈ decimal n) : 48 ≤ b ∧ b ≤ 57 := by
  have digit : ∀ d < 10,48 ≤ (48 + d).toUInt8 ∧ (48 + d).toUInt8 ≤ 57 := by decide
  induction n using Nat.strongRecOn with
  | ind n ih =>
    rw [decimal_step] at member
    split_ifs at member with small
    · rw [mem_singleton.mp member]
      exact digit n small
    · obtain high | low := mem_append.mp member
      · exact ih (n / 10) (by omega) high
      · rw [mem_singleton.mp low]
        exact digit _ (Nat.mod_lt _ (by decide))

def signed : Int → List UInt8
  | .ofNat n => decimal n
  | .negSucc n => 45 :: decimal (n + 1)

lemma signed_injective : Function.Injective signed := by
  have signs (m n) : decimal m ≠ 45 :: decimal n := by
    intro same
    have digit := decimal_digits (n := m) (b := 45) (same ▸ mem_cons_self)
    revert digit
    decide
  intro x y same
  cases x with
  | ofNat m =>
    cases y with
    | ofNat n => exact congrArg Int.ofNat (decimal_injective same)
    | negSucc n => exact absurd same (signs m (n + 1))
  | negSucc m =>
    cases y with
    | ofNat n => exact absurd same.symm (signs n (m + 1))
    | negSucc n =>
      have magnitude := decimal_injective (List.cons.inj same).2
      rw [Nat.succ.inj magnitude]

def digits (text : List UInt8) : Option Nat :=
  if text ≠ [] ∧ text.all (fun b => 48 ≤ b ∧ b ≤ 57) then some (value text) else none

def parse : List UInt8 → Option Int
  | [] => none
  | b :: text =>
    if b = 45 then (digits text).map (fun n => -(n : Int))
    else if b = 43 then (digits text).map (fun n => (n : Int))
    else (digits (b :: text)).map (fun n => (n : Int))

lemma decimal_ne_nil : decimal n ≠ [] := by
  rw [decimal_step]
  split_ifs <;> simp

lemma digits_decimal : digits (decimal n) = some n := by
  have all : (decimal n).all (fun b => 48 ≤ b ∧ b ≤ 57) = true := by
    rw [all_eq_true]
    intro b member
    exact decide_eq_true (decimal_digits member)
  rw [digits,if_pos ⟨decimal_ne_nil n,all⟩,value_decimal]

variable (x : Int)

lemma parse_signed : parse (signed x) = some x := by
  cases x with
  | ofNat n =>
    obtain ⟨b,rest,whole⟩ := exists_cons_of_ne_nil (decimal_ne_nil n)
    have digit := decimal_digits (n := n) (b := b) (by rw [whole]; exact mem_cons_self)
    have minus : b ≠ 45 := by
      rintro rfl
      revert digit
      decide
    have plus : b ≠ 43 := by
      rintro rfl
      revert digit
      decide
    rw [signed,whole,parse,if_neg minus,if_neg plus,← whole,digits_decimal]
    rfl
  | negSucc n =>
    rw [signed,parse,digits_decimal]
    rfl

lemma colon_signed : 58 ∉ signed x := by
  have free n : 58 ∉ decimal n := fun member => absurd (decimal_digits member) (by decide)
  cases x with
  | ofNat n => exact free n
  | negSucc n =>
    rw [signed,mem_cons,not_or]
    exact ⟨by decide,free (n + 1)⟩

def hexDigit (n : Nat) : UInt8 := if n < 10 then (48 + n).toUInt8 else (87 + n).toUInt8

lemma hexDigit_inj : ∀ m < 16,∀ n < 16,hexDigit m = hexDigit n → m = n := by decide

def hex (bytes : List UInt8) : List UInt8 :=
  bytes.flatMap (fun b => [hexDigit (b.toNat / 16),hexDigit (b.toNat % 16)])

lemma hex_cons (b : UInt8) (bytes : List UInt8) :
    hex (b :: bytes) = hexDigit (b.toNat / 16) :: hexDigit (b.toNat % 16) :: hex bytes := rfl

lemma hex_injective : Function.Injective hex := by
  intro xs ys same
  induction xs generalizing ys with
  | nil =>
    cases ys with
    | nil => rfl
    | cons y ys => cases same
  | cons x xs ih =>
    cases ys with
    | nil => cases same
    | cons y ys =>
      rw [hex_cons,hex_cons,List.cons.injEq,List.cons.injEq] at same
      obtain ⟨high,low,rest⟩ := same
      have xBound := x.toNat_lt
      have yBound := y.toNat_lt
      have high' := hexDigit_inj _ (by omega) _ (by omega) high
      have low' := hexDigit_inj _ (Nat.mod_lt _ (by decide)) _ (Nat.mod_lt _ (by decide)) low
      have first : x = y := UInt8.toNat_inj.mp (by omega)
      rw [first,ih rest]

def spaces : List (List UInt8) :=
  [[9],[10],[11],[12],[13],[32],[0xC2,0x85],[0xC2,0xA0],[0xE1,0x9A,0x80]] ++
  (List.range 11).map (fun i => [0xE2,0x80,(0x80 + i).toUInt8]) ++
  [[0xE2,0x80,0xA8],[0xE2,0x80,0xA9],[0xE2,0x80,0xAF],[0xE2,0x81,0x9F],[0xE3,0x80,0x80]]

def dropSpaces (spaces : List (List UInt8)) : Nat → List UInt8 → List UInt8
  | 0,text => text
  | most + 1,text =>
    match spaces.find? (fun space => space.isPrefixOf text) with
    | none => text
    | some space => dropSpaces spaces most (text.drop space.length)

def trimSpace (text : List UInt8) : List UInt8 :=
  let left := dropSpaces spaces text.length text
  (dropSpaces (spaces.map List.reverse) left.length left.reverse).reverse

def Visible (b : UInt8) : Prop := ∀ space ∈ spaces, space.head? ≠ some b ∧ space.reverse.head? ≠ some b

instance (b : UInt8) : Decidable (Visible b) := inferInstanceAs (Decidable (∀ space ∈ spaces, _))

lemma dropSpaces_visible {spaces : List (List UInt8)} (first : text.head? = some b)
    (visible : ∀ space ∈ spaces,space ≠ [] ∧ space.head? ≠ some b) (most : Nat) : dropSpaces spaces most text = text := by
  cases most with
  | zero => rfl
  | succ most =>
    have none : spaces.find? (fun space => space.isPrefixOf text) = none := by
      rw [find?_eq_none]
      intro space listed begins
      obtain ⟨some,other⟩ := visible space listed
      obtain ⟨c,rest,rfl⟩ := exists_cons_of_ne_nil some
      rw [ isPrefixOf_iff_prefix] at begins
      obtain ⟨tail,rfl⟩ := begins
      exact other first
    rw [dropSpaces,none]

lemma trimSpace_visible {first last : UInt8} (head : text.head? = some first) (visible : Visible first)
    (final : text.getLast? = some last) (visible' : Visible last) : trimSpace text = text := by
  have proper : ∀ space ∈ spaces,space ≠ [] := by decide
  have back : dropSpaces (spaces.map List.reverse) text.length text.reverse = text.reverse := by
    apply dropSpaces_visible (by rw [head?_reverse,final])
    intro space listed
    obtain ⟨forward,member,rfl⟩ := mem_map.mp listed
    exact ⟨by simpa using proper forward member,(visible' forward member).2⟩
  unfold trimSpace
  dsimp only
  rw [dropSpaces_visible head (fun space listed => ⟨proper space listed,(visible space listed).1⟩),back,reverse_reverse]

def Plain (b : UInt8) : Prop := 45 ≤ b.toNat ∧ b.toNat ≤ 102

instance (b : UInt8) : Decidable (Plain b) := inferInstanceAs (Decidable (_ ∧ _))

lemma Plain.visible (plain : Plain b) : Visible b := by
  have others : spaces.all (fun space => space.all (fun c => ¬Plain c)) = true := by decide
  have outside := fun space listed member =>
    of_decide_eq_true (all_eq_true.mp (all_eq_true.mp others space listed) b member) plain
  intro space listed
  refine ⟨fun head => outside space listed (mem_of_head? head),fun last => outside space listed ?_⟩
  exact mem_reverse.mp (mem_of_head? last)

lemma signed_plain {x : Int} (member : b ∈ signed x) : Plain b := by
  have digit : ∀ {n : Nat},b ∈ decimal n → Plain b := by
    intro n inside
    obtain ⟨low,high⟩ := decimal_digits inside
    exact ⟨Nat.le_trans (by decide) low,Nat.le_trans high (by decide)⟩
  cases x with
  | ofNat n => exact digit member
  | negSucc n =>
    rcases mem_cons.mp member with rfl | inside
    · decide
    · exact digit inside

lemma hex_plain {bytes : List UInt8} (member : b ∈ hex bytes) : Plain b := by
  have digit : ∀ n < 16,Plain (hexDigit n) := by decide
  obtain ⟨c,-,inside⟩ := mem_flatMap.mp member
  have bound := c.toNat_lt
  simp only [mem_cons,not_mem_nil,or_false] at inside
  rcases inside with rfl | rfl
  all_goals exact digit _ (by omega)

lemma signed_ne_nil : signed x ≠ [] := by
  cases x with
  | ofNat n => exact decimal_ne_nil n
  | negSucc n => exact cons_ne_nil _ _

section Joined

variable {α : Type} [DecidableEq α] (sep : α)

def joined (parts : List (List α)) (last : List α) : List α := parts.foldr (fun part rest => part ++ sep :: rest) last

variable {sep}

lemma split_count {a a' rest rest' : List α} (counts : a.count sep = a'.count sep)
    (same : a ++ sep :: rest = a' ++ sep :: rest') : a = a' ∧ rest = rest' := by
  obtain ⟨middle,left,right⟩ | ⟨middle,left,right⟩ := append_eq_append_iff.mp same
  all_goals
    cases middle with
    | nil => simp_all
    | cons first middle =>
      rw [cons_append,List.cons.injEq] at right
      rw [left,← right.1,count_append,count_cons_self] at counts
      omega

lemma joined_injective {parts parts' : List (List α)} {last last' : List α}
    (counts : List.Forall₂ (fun part part' => part.count sep = part'.count sep) parts parts')
    (same : joined sep parts last = joined sep parts' last') : parts = parts' ∧ last = last' := by
  induction counts with
  | nil => exact ⟨rfl,same⟩
  | cons count rest ih =>
    obtain ⟨first,others⟩ := split_count count same
    obtain ⟨tail,final⟩ := ih others
    exact ⟨by rw [first,tail],final⟩

end Joined

end ByteText
