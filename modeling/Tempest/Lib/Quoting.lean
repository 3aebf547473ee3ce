import Mathlib.Data.List.Basic
import Mathlib.Algebra.Ring.Nat

/-! Quoted texts and texts in braces. A code writes a character as itself, as a backslash
with a letter, or as a backslash with a letter and its number; what it writes between quotes
can be read back whatever follows. A scanner that knows only quotes, backslashes and braces
shows that a text in braces does not end with another one. -/
open List
namespace Quoting

def Bare (x : Char) : Prop := x ≠ '"' ∧ x ≠ '\\'

instance (x : Char) : Decidable (Bare x) := inferInstanceAs (Decidable (_ ∧ _))

def hex : Nat → Nat → List Char
  | 0,_ => []
  | width + 1,n => hex width (n / 16) ++ [Nat.digitChar (n % 16)]

lemma hex_length (width n : Nat) : (hex width n).length = width := by
  induction width generalizing n with
  | zero => rfl
  | succ width ih => rw [hex,length_append,ih,length_singleton]

lemma hex_inj {width m n : Nat} (small : m < 16 ^ width) (small' : n < 16 ^ width)
    (same : hex width m = hex width n) : m = n := by
  have digit : ∀ d < 16,∀ e < 16,Nat.digitChar d = Nat.digitChar e → d = e := by decide
  induction width generalizing m n with
  | zero =>
    omega
  | succ width ih =>
    obtain ⟨high,low⟩ := append_inj' same rfl
    have high := ih (by omega) (by omega) high
    have low := digit _ (Nat.mod_lt m (by decide)) _ (Nat.mod_lt n (by decide)) (singleton_inj.mp low)
    omega

lemma hex_bare (width n : Nat) : ∀ x ∈ hex width n,Bare x := by
  have digit : ∀ d < 16,Bare (Nat.digitChar d) := by decide
  induction width generalizing n with
  | zero => exact fun x member => absurd member not_mem_nil
  | succ width ih =>
    intro x member
    rcases mem_append.mp member with high | low
    · exact ih _ x high
    · rw [mem_singleton.mp low]
      exact digit _ (Nat.mod_lt _ (by decide))

/-- How characters are written between quotes. Quotes and backslashes come first, then the
characters that stand for themselves, then those with a letter of their own. -/
structure Code where
  bare : Char → Bool
  letters : List (Char × Char)
  wide : Char → Char × Nat
  letters_inj : ∀ p ∈ letters,∀ q ∈ letters,p.2 = q.2 → p.1 = q.1
  letters_bare : ∀ p ∈ letters,Bare p.2
  wide_bare : ∀ c,Bare (wide c).1
  apart : ∀ p ∈ letters,∀ c,p.2 ≠ (wide c).1
  width : ∀ a b,(wide a).1 = (wide b).1 → (wide a).2 = (wide b).2
  fits : ∀ c,bare c = false → c.toNat < 16 ^ (wide c).2

namespace Code

variable (code : Code)

def write (c : Char) : List Char :=
  if c = '"' ∨ c = '\\' then ['\\',c]
  else if code.bare c then [c]
  else
    match code.letters.find? (fun p => p.1 = c) with
    | some p => ['\\',p.2]
    | none => '\\' :: (code.wide c).1 :: hex (code.wide c).2 c.toNat

def quoted (s : List Char) : List Char := '"' :: s.flatMap code.write ++ ['"']

def escapes : List (Char × Char) := ('"','"') :: ('\\','\\') :: code.letters

lemma escapes_inj {p q : Char × Char} (left : p ∈ code.escapes) (right : q ∈ code.escapes) (same : p.2 = q.2) :
    p.1 = q.1 := by
  simp only [escapes,mem_cons] at left right
  rcases left with rfl | rfl | left
  · rcases right with rfl | rfl | right
    · rfl
    · exact same
    · exact absurd same.symm (code.letters_bare q right).1
  · rcases right with rfl | rfl | right
    · exact same
    · rfl
    · exact absurd same.symm (code.letters_bare q right).2
  · rcases right with rfl | rfl | right
    · exact absurd same (code.letters_bare p left).1
    · exact absurd same (code.letters_bare p left).2
    · exact code.letters_inj p left q right same

lemma escapes_apart {p : Char × Char} (member : p ∈ code.escapes) (c : Char) : p.2 ≠ (code.wide c).1 := by
  simp only [escapes,mem_cons] at member
  rcases member with rfl | rfl | member
  · exact (code.wide_bare c).1.symm
  · exact (code.wide_bare c).2.symm
  · exact code.apart p member c

lemma write_cases (c : Char) :
    (Bare c ∧ code.write c = [c]) ∨ (∃ letter,(c,letter) ∈ code.escapes ∧ code.write c = ['\\',letter]) ∨
    (c.toNat < 16 ^ (code.wide c).2 ∧ code.write c = '\\' :: (code.wide c).1 :: hex (code.wide c).2 c.toNat) := by
  rw [write]
  split_ifs with special keeps
  · refine .inr (.inl ⟨c,?_,rfl⟩)
    rcases special with rfl | rfl <;> simp [escapes]
  · exact .inl ⟨not_or.mp special,rfl⟩
  · cases found : code.letters.find? (fun p => p.1 = c) with
    | some p =>
      have member := mem_of_find?_eq_some found
      have same : p.1 = c := by simpa using find?_some found
      subst same
      exact .inr (.inl ⟨p.2,mem_cons_of_mem _ (mem_cons_of_mem _ member),rfl⟩)
    | none => exact .inr (.inr ⟨code.fits c (Bool.not_eq_true _ ▸ keeps),rfl⟩)

lemma write_inj {a b : Char} {rest rest' : List Char} (same : code.write a ++ rest = code.write b ++ rest') : a = b := by
  rcases code.write_cases a with ⟨bare,left⟩ | ⟨letter,member,left⟩ | ⟨fits,left⟩
  · rcases code.write_cases b with ⟨-,right⟩ | ⟨_,-,right⟩ | ⟨-,right⟩ <;> rw [left,right] at same
    · exact head_eq_of_cons_eq same
    all_goals exact absurd (head_eq_of_cons_eq same) bare.2
  · rcases code.write_cases b with ⟨bare,right⟩ | ⟨letter',member',right⟩ | ⟨-,right⟩ <;> rw [left,right] at same
    · exact absurd (head_eq_of_cons_eq same).symm bare.2
    · exact code.escapes_inj member member' (head_eq_of_cons_eq (tail_eq_of_cons_eq same))
    · exact absurd (head_eq_of_cons_eq (tail_eq_of_cons_eq same)) (code.escapes_apart member b)
  · rcases code.write_cases b with ⟨bare,right⟩ | ⟨letter,member,right⟩ | ⟨fits',right⟩ <;> rw [left,right] at same
    · exact absurd (head_eq_of_cons_eq same).symm bare.2
    · exact absurd (head_eq_of_cons_eq (tail_eq_of_cons_eq same)).symm (code.escapes_apart member a)
    · obtain ⟨letters,digits⟩ := List.cons.inj (tail_eq_of_cons_eq same)
      rw [← code.width a b letters] at fits' digits
      exact Char.toNat_inj.mp (hex_inj fits fits' (append_inj_left digits (by rw [hex_length,hex_length])))

lemma quoted_inj {s t rest rest' : List Char} (same : code.quoted s ++ rest = code.quoted t ++ rest') :
    s = t ∧ rest = rest' := by
  have closes : ∀ c (rest rest'),'"' :: rest ≠ code.write c ++ rest' := by
    intro c rest rest' same
    rcases code.write_cases c with ⟨bare,written⟩ | ⟨_,-,written⟩ | ⟨-,written⟩ <;> rw [written] at same
    · exact bare.1 (head_eq_of_cons_eq same).symm
    all_goals cases same
  simp only [quoted,cons_append,append_assoc,nil_append,List.cons.injEq,true_and] at same
  induction s generalizing t with
  | nil =>
    cases t with
    | nil => exact ⟨rfl,tail_eq_of_cons_eq same⟩
    | cons b t =>
      rw [flatMap_cons,append_assoc] at same
      exact absurd same (closes b _ _)
  | cons a s ih =>
    cases t with
    | nil =>
      rw [flatMap_cons,append_assoc] at same
      exact absurd same.symm (closes a _ _)
    | cons b t =>
      rw [flatMap_cons,flatMap_cons,append_assoc,append_assoc] at same
      have first := code.write_inj same
      subst first
      obtain ⟨others,after⟩ := ih (append_cancel_left same)
      exact ⟨by rw [others],after⟩

end Code

section Scanner

inductive Mode
  | outside
  | inside
  | escaped
  deriving DecidableEq

/-- One character, with the number of braces that are open. Outside of quotes there is no
backslash, and no brace is closed that was not opened. -/
def scan : Mode × Nat → Char → Option (Mode × Nat)
  | (.escaped,depth),_ => some (.inside,depth)
  | (.inside,depth),x =>
    if x = '"' then some (.outside,depth) else if x = '\\' then some (.escaped,depth) else some (.inside,depth)
  | (.outside,depth),x =>
    if x = '"' then some (.inside,depth)
    else if x = '\\' then none
    else if x = '\x7b' then some (.outside,depth + 1)
    else if x = '\x7d' then if depth = 0 then none else some (.outside,depth - 1)
    else some (.outside,depth)

def scanAll (state : Mode × Nat) (text : List Char) : Option (Mode × Nat) := text.foldlM scan state

lemma scanAll_cons (state : Mode × Nat) (x : Char) (text : List Char) :
    scanAll state (x :: text) = (scan state x).bind (fun next => scanAll next text) := rfl

lemma scanAll_append (state : Mode × Nat) (first second : List Char) :
    scanAll state (first ++ second) = (scanAll state first).bind (fun next => scanAll next second) :=
  foldlM_append

variable {mode mode' : Mode} {depth depth' : Nat} {x : Char} {text : List Char}

lemma scan_deeper (more : Nat)
    (step : scan (mode,depth) x = some (mode',depth')) : scan (mode,depth + more) x = some (mode',depth' + more) := by
  cases mode with
  | escaped | inside | outside => grind [scan]

lemma scanAll_deeper (more : Nat) (run : scanAll (mode,depth) text = some (mode',depth')) :
    scanAll (mode,depth + more) text = some (mode',depth' + more) := by
  induction text generalizing mode depth with
  | nil =>
    cases run
    rfl
  | cons x text ih =>
    rw [scanAll_cons,Option.bind_eq_some_iff] at run ⊢
    obtain ⟨⟨mode₁,depth₁⟩,step,later⟩ := run
    exact ⟨_,scan_deeper more step,ih later⟩

def Balanced (text : List Char) : Prop := scanAll (.outside,0) text = some (.outside,0)

lemma Balanced.at_depth (balanced : Balanced text) (depth : Nat) :
    scanAll (.outside,depth) text = some (.outside,depth) := by
  simpa using scanAll_deeper depth balanced

lemma Balanced.append {first second : List Char} (left : Balanced first) (right : Balanced second) :
    Balanced (first ++ second) := by
  rw [Balanced,scanAll_append,left,Option.bind_some,right]

lemma Balanced.braces (balanced : Balanced text) : Balanced ('\x7b' :: text ++ ['\x7d']) := by
  rw [Balanced,scanAll_append,scanAll_cons]
  rw [show scan (.outside,0) '\x7b' = some (.outside,1) from rfl,Option.bind_some,balanced.at_depth 1]
  rfl

def Inert (x : Char) : Prop := Bare x ∧ x ≠ '\x7b' ∧ x ≠ '\x7d'

instance (x : Char) : Decidable (Inert x) := inferInstanceAs (Decidable (_ ∧ _))

lemma balanced_inert (inert : ∀ x ∈ text,Inert x) : Balanced text := by
  induction text with
  | nil => rfl
  | cons x text ih =>
    obtain ⟨⟨quote,slash⟩,opening,closing⟩ := inert x mem_cons_self
    have step : scan (.outside,0) x = some (.outside,0) := by simp [scan,quote,slash,opening,closing]
    rw [Balanced,scanAll_cons,step]
    exact ih (fun y member => inert y (mem_cons_of_mem _ member))

lemma scanAll_bare (bare : ∀ x ∈ text,Bare x) (depth : Nat) :
    scanAll (.inside,depth) text = some (.inside,depth) := by
  induction text with
  | nil => rfl
  | cons x text ih =>
    obtain ⟨quote,slash⟩ := bare x mem_cons_self
    have step : scan (.inside,depth) x = some (.inside,depth) := by simp [scan,quote,slash]
    rw [scanAll_cons,step]
    exact ih (fun y member => bare y (mem_cons_of_mem _ member))

lemma scanAll_write (code : Code) (c : Char) (depth : Nat) :
    scanAll (.inside,depth) (code.write c) = some (.inside,depth) := by
  rcases code.write_cases c with ⟨bare,written⟩ | ⟨letter,-,written⟩ | ⟨-,written⟩ <;> rw [written]
  · exact scanAll_bare (fun x member => mem_singleton.mp member ▸ bare) depth
  · rfl
  · exact scanAll_bare (hex_bare _ _) depth

lemma balanced_quoted (code : Code) (s : List Char) : Balanced (code.quoted s) := by
  have content : scanAll (.inside,0) (s.flatMap code.write) = some (.inside,0) := by
    induction s with
    | nil => rfl
    | cons c s ih => rw [flatMap_cons,scanAll_append,scanAll_write,Option.bind_some,ih]
  rw [Balanced,Code.quoted,scanAll_append,scanAll_cons]
  rw [show scan (.outside,0) '"' = some (.inside,0) from rfl,Option.bind_some,content]
  rfl

lemma scanAll_opposite {a b a' b' : Mode} {depth₁ depth₁' : Nat}
    (opposite : a = .outside ∧ b = .inside ∨ a = .inside ∧ b = .outside)
    (run : scanAll (a,depth) text = some (a',depth')) (run' : scanAll (b,depth₁) text = some (b',depth₁')) :
    a' = .outside ∧ b' = .inside ∨ a' = .inside ∧ b' = .outside := by
  induction text generalizing a b depth depth₁ with
  | nil =>
    cases run
    cases run'
    exact opposite
  | cons x text ih =>
    rw [scanAll_cons,Option.bind_eq_some_iff] at run run'
    obtain ⟨⟨mode,_⟩,step,later⟩ := run
    obtain ⟨⟨mode',_⟩,step',later'⟩ := run'
    refine ih ?_ later later'
    rcases opposite with ⟨rfl,rfl⟩ | ⟨rfl,rfl⟩ <;> grind [scan]

lemma scan_not_escaped {state next : Mode × Nat} (plain : x ≠ '\\') (step : scan state x = some next) :
    next.1 ≠ .escaped := by
  obtain ⟨mode,depth⟩ := state
  cases mode <;> grind [scan]

lemma Balanced.no_tail {body before tail : List Char} (inner : Balanced body) (balanced : Balanced tail)
    (ends : tail ≠ []) : '\x7b' :: body ++ ['\x7d'] ≠ before ++ ':' :: tail := by
  intro same
  cases before with
  | nil => cases same
  | cons x front =>
    have shape : body ++ ['\x7d'] = (front ++ [':']) ++ tail := by
      simpa using tail_eq_of_cons_eq same
    obtain ⟨rest,last,rfl⟩ := eq_nil_or_concat tail |>.resolve_left ends
    rw [concat_eq_append] at balanced shape
    rw [← append_assoc] at shape
    obtain ⟨split,-⟩ := append_inj' shape rfl
    -- the scan of the body, stopped after the colon
    have run := inner
    rw [Balanced,split,scanAll_append,Option.bind_eq_some_iff] at run
    obtain ⟨⟨mode,depth⟩,reached,-⟩ := run
    have whole : scanAll (.outside,1) (body ++ ['\x7d']) = some (.outside,0) := by
      rw [scanAll_append,inner.at_depth 1]
      rfl
    rw [shape,append_assoc,scanAll_append,scanAll_deeper 1 reached,Option.bind_some] at whole
    cases mode with
    | outside =>
      rw [balanced.at_depth] at whole
      cases whole
    | inside =>
      obtain ⟨-,wrong⟩ | ⟨wrong,-⟩ := scanAll_opposite (.inl ⟨rfl,rfl⟩) balanced whole
      all_goals cases wrong
    | escaped =>
      rw [scanAll_append,Option.bind_eq_some_iff] at reached
      obtain ⟨state,-,last⟩ := reached
      rw [scanAll_cons,Option.bind_eq_some_iff] at last
      obtain ⟨next,step,stop⟩ := last
      cases stop
      exact scan_not_escaped (by decide) step rfl

end Scanner

end Quoting
