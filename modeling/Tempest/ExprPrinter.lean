import Tempest.ExprParser

/-! Printed expressions and what becomes of them in the parser. The printer sets the
parentheses that the levels of the operators require, those of the same level to the right of
a binary operator included. Whether the operand of a unary operator may be of the unary level
itself (6) or has to be a primary expression (7) is a parameter of the printer: the parser takes
primary expressions only. -/
namespace Tempest.Expr
open Chain List

def Op.level : Op → Nat
  | or => 1
  | and => 2
  | eq | ne | le | ge | lt | gt | in_ | contains => 3
  | add | sub => 4
  | mul | div => 5
  | not => 0

def parens (weak : Bool) (text : List Char) : List Char := if weak then '(' :: (text ++ [')']) else text

mutual

/-- The text of an expression as an operand that has to be of level `k` at least, where operands
of unary operators have to be of level `tight`. -/
def render (tight k : Nat) : Node → List Char
  | .number text => text
  | .string value => '"' :: (value.flatMap escape ++ ['"'])
  | .bool value => (Token.bool value).value
  | .null => Token.null.value
  | .path text => text
  | .list [] => ['[',']']
  | .list (e :: es) => '[' :: (render tight 1 e ++ (renderMore tight es ++ [']']))
  | .unary o e => parens (6 < k) (o.text ++ render tight tight e)
  | .binary l o r =>
    parens (o.level < k) (render tight o.level l ++ ' ' :: (o.text ++ ' ' :: render tight (o.level + 1) r))

def renderMore (tight : Nat) : List Node → List Char
  | [] => []
  | e :: es => ',' :: ' ' :: (render tight 1 e ++ renderMore tight es)

end

def print (tight : Nat) (t : Node) : List Char := render tight 1 t

def parensTokens (weak : Bool) (tokens : List Token) : List Token :=
  if weak then .lParen :: (tokens ++ [.rParen]) else tokens

mutual

def tokensAt (tight k : Nat) : Node → List Token
  | .number text => [.number text]
  | .string value => [.string value]
  | .bool value => [.bool value]
  | .null => [.null]
  | .path text => [.path text]
  | .list [] => [.lBracket,.rBracket]
  | .list (e :: es) => .lBracket :: (tokensAt tight 1 e ++ (tokensMore tight es ++ [.rBracket]))
  | .unary o e => parensTokens (6 < k) (.op o :: tokensAt tight tight e)
  | .binary l o r => parensTokens (o.level < k) (tokensAt tight o.level l ++ .op o :: tokensAt tight (o.level + 1) r)

def tokensMore (tight : Nat) : List Node → List Token
  | [] => []
  | e :: es => .comma :: (tokensAt tight 1 e ++ tokensMore tight es)

end

mutual

/-- Trees that are built from numbers and paths as the lexer reads them, and from operators in
their places. -/
def WellFormed (u : Unicode) : Node → Prop
  | .number text => Numeral u text
  | .path text => PathText u text
  | .list es => AllWellFormed u es
  | .unary o e => (o = .not ∨ o = .sub) ∧ WellFormed u e
  | .binary l o r => o ≠ .not ∧ WellFormed u l ∧ WellFormed u r
  | _ => True

def AllWellFormed (u : Unicode) : List Node → Prop
  | [] => True
  | e :: es => WellFormed u e ∧ AllWellFormed u es

end

section Scanning

variable {u : Unicode} {tight : Nat}

lemma stops_cons {c : Char} {rest : List Char} (stop : c ∈ [' ',')',']',',']) : Stops (c :: rest) := by
  intro d member
  cases member
  exact stop

lemma scans_parens {weak : Bool} {text rest : List Char} {tokens : List Token} (stops : Stops rest)
    (inner : ∀ rest,Stops rest → Scans u (text ++ rest) tokens rest) :
    Scans u (parens weak text ++ rest) (parensTokens weak tokens) rest := by
  cases weak with
  | false => exact inner rest stops
  | true =>
    have middle := inner (')' :: rest) (stops_cons (by decide))
    have whole := (scans_lParen.append middle).append scans_rParen
    rw [parens,if_pos rfl,cons_append,append_assoc]
    exact whole

lemma render_head (u : Unicode) (tight : Nat) : ∀ (t : Node) (k : Nat) (rest : List Char),WellFormed u t →
    ∀ c ∈ (render tight k t ++ rest).head?, c ≠ '='
  | .number text,k,rest,formed => by
    obtain ⟨⟨c,tail,rfl,digit⟩,-⟩ := formed
    intro d member
    cases member
    exact (digit_spec digit).2.2.2.2.2
  | .path text,k,rest,formed => by
    obtain ⟨tail,rfl,-⟩ := formed
    intro d member
    cases member
    decide
  | .string value,k,rest,formed
  | .bool true,k,rest,formed
  | .bool false,k,rest,formed
  | .null,k,rest,formed
  | .list [],k,rest,formed
  | .list (e :: es),k,rest,formed => by
    intro d member
    cases member
    decide
  | .unary o e,k,rest,formed => by
    rw [render,parens]
    intro d member
    split_ifs at member
    · cases member
      decide
    · obtain rfl | rfl := formed.1
      all_goals
        cases member
        decide
  | .binary l o r,k,rest,formed => by
    rw [render,parens]
    intro d member
    split_ifs at member
    · cases member
      decide
    · rw [append_assoc] at member
      exact render_head u tight l o.level _ formed.2.1 d member

lemma stops_renderMore (es : List Node) {rest : List Char} (stops : Stops rest) : Stops (renderMore tight es ++ rest) := by
  cases es with
  | nil => exact stops
  | cons e es => exact stops_cons (by decide)

lemma tokensAt_ne_nil (k : Nat) (t : Node) : tokensAt tight k t ≠ [] := by
  have wrapped : ∀ weak tokens,tokens ≠ [] → parensTokens weak tokens ≠ [] := by
    intro weak tokens some_
    cases weak with
    | true => exact cons_ne_nil _ _
    | false => exact some_
  cases t with
  | list es => cases es <;> exact cons_ne_nil _ _
  | unary o e => exact wrapped _ _ (cons_ne_nil _ _)
  | binary l o r => exact wrapped _ _ (append_ne_nil_of_right_ne_nil _ (cons_ne_nil _ _))
  | _ => exact cons_ne_nil _ _

mutual

lemma scans_render : ∀ (t : Node) (k : Nat) (rest : List Char),WellFormed u t → Stops rest →
    Scans u (render tight k t ++ rest) (tokensAt tight k t) rest
  | .number text,k,rest,formed,stops => scans_number formed stops
  | .path text,k,rest,formed,stops => scans_path formed stops
  | .string value,k,rest,formed,stops => by
    rw [render,cons_append,append_assoc]
    exact scans_string value
  | .bool value,k,rest,formed,stops => scans_bool value stops
  | .null,k,rest,formed,stops => scans_null stops
  | .list [],k,rest,formed,stops => scans_lBracket.append scans_rBracket
  | .list (e :: es),k,rest,formed,stops => by
    have more := scans_renderMore es (']' :: rest) formed.2 (stops_cons (by decide))
    have first := scans_render e 1 (renderMore tight es ++ ']' :: rest) formed.1 (stops_renderMore es (stops_cons (by decide)))
    have whole := (scans_lBracket.append (first.append more)).append scans_rBracket
    rw [render]
    simp only [cons_append,append_assoc,nil_append] at whole ⊢
    exact whole
  | .unary o e,k,rest,formed,stops => by
    rw [render]
    apply scans_parens stops
    intro rest stops
    rw [append_assoc]
    exact (scans_unary formed.1 (render_head u tight e tight rest formed.2)).append (scans_render e tight rest formed.2 stops)
  | .binary l o r,k,rest,formed,stops => by
    rw [render]
    apply scans_parens stops
    intro rest stops
    have right := (scans_render r (o.level + 1) rest formed.2.2 stops).blank (tokensAt_ne_nil _ _)
    have middle := ((scans_op o).blank (cons_ne_nil _ _)).append right
    have left := scans_render l o.level (' ' :: (o.text ++ ' ' :: (render tight (o.level + 1) r ++ rest))) formed.2.1
      (stops_cons (by decide))
    have whole := left.append middle
    simp only [cons_append,append_assoc,nil_append] at whole ⊢
    exact whole

lemma scans_renderMore : ∀ (es : List Node) (rest : List Char),AllWellFormed u es → Stops rest →
    Scans u (renderMore tight es ++ rest) (tokensMore tight es) rest
  | [],rest,formed,stops => .done rest
  | e :: es,rest,formed,stops => by
    have more := scans_renderMore es rest formed.2 stops
    have first := scans_render e 1 (renderMore tight es ++ rest) formed.1 (stops_renderMore es stops)
    have whole := scans_comma.append ((first.append more).blank (by simp [tokensAt_ne_nil]))
    rw [renderMore]
    simp only [cons_append,append_assoc,nil_append] at whole ⊢
    exact whole

end

end Scanning

end Tempest.Expr
