import Tempest.ExprLexer
import Tempest.Lib.Chain

/-! The parser of `internal/expr`, by recursive descent. Five levels of binary operators are
chains over the next level, a unary operator stands before a primary expression, and
parentheses and lists lead back to the first level. -/
namespace Tempest.Expr
open Chain

/-- Numbers are kept as their texts. -/
inductive Node
  | number (text : List Char)
  | string (value : List Char)
  | bool (value : Bool)
  | null
  | path (text : List Char)
  | list (elements : List Node)
  | unary (op : Op) (expr : Node)
  | binary (left : Node) (op : Op) (right : Node)

abbrev Parse := Parser Token Failure Node

def peek (tokens : List Token) : Token := tokens.headD .eof

def parseElements (expr : Parse) : Nat → List Node → List Token → Except Failure (List Node × List Token)
  | 0, _, _ => .error .spent
  | fuel + 1, elements, tokens =>
    if peek tokens = .rBracket then .ok (elements,tokens)
    else
      match expr tokens with
      | .error e => .error e
      | .ok (el,rest) =>
        if peek rest = .comma then parseElements expr fuel (elements ++ [el]) rest.tail
        else if peek rest ≠ .rBracket then .error .expectedComma
        else parseElements expr fuel (elements ++ [el]) rest

section Levels

variable (expr : Parse)

def parsePrimary : Parse := fun tokens =>
  match peek tokens with
  | .number text => .ok (.number text,tokens.tail)
  | .string value => .ok (.string value,tokens.tail)
  | .bool value => .ok (.bool value,tokens.tail)
  | .null => .ok (.null,tokens.tail)
  | .path text => .ok (.path text,tokens.tail)
  | .lParen =>
    match expr tokens.tail with
    | .error e => .error e
    | .ok (sub,rest) => if peek rest ≠ .rParen then .error .missingParenthesis else .ok (sub,rest.tail)
  | .lBracket =>
    match parseElements expr (tokens.tail.length + 1) [] tokens.tail with
    | .error e => .error e
    | .ok (elements,rest) => .ok (.list elements,rest.tail)
  | token => .error (.unexpectedToken token.value)

def parseUnary : Parse := fun tokens =>
  match peek tokens with
  | .op o =>
    if o = .not ∨ o = .sub then
      match parsePrimary expr tokens.tail with
      | .error e => .error e
      | .ok (sub,rest) => .ok (.unary o sub,rest)
    else parsePrimary expr tokens
  | _ => parsePrimary expr tokens

def among (ops : List Op) : Token → Option Op
  | .op o => if o ∈ ops then some o else none
  | _ => none

def parseChain (ops : List Op) (operand : Parse) : Parse := chain (among ops) Node.binary .spent operand

def parseMulDiv : Parse := parseChain [.mul,.div] (parseUnary expr)

def parseAddSub : Parse := parseChain [.add,.sub] (parseMulDiv expr)

def parseComparison : Parse := parseChain [.eq,.ne,.lt,.le,.gt,.ge,.in_,.contains] (parseAddSub expr)

def parseLogicalAnd : Parse := parseChain [.and] (parseComparison expr)

end Levels

def parseLogicalOr : Nat → Parse
  | 0 => fun _ => .error .spent
  | depth + 1 => parseChain [.or] (parseLogicalAnd (parseLogicalOr depth))

def parse (u : Unicode) (input : List Char) : Except Failure Node :=
  match tokenize u (input.length + 1) input with
  | .error e => .error e
  | .ok tokens =>
    match parseLogicalOr (tokens.length + 1) tokens with
    | .error e => .error e
    | .ok (node,rest) => if peek rest ≠ .eof then .error (.trailingToken (peek rest).value) else .ok node

section Consuming

variable {expr : Parse}

lemma tail_lt {tokens : List Token} (inner : peek tokens ≠ .eof) : tokens.tail.length < tokens.length := by
  cases tokens with
  | nil => exact absurd rfl inner
  | cons token rest => exact Nat.lt_succ_self _

lemma tail_le (tokens : List Token) : tokens.tail.length ≤ tokens.length := by
  rw [List.length_tail]
  omega

section
variable (consumes : Consumes expr)
include consumes

lemma parseElements_le {fuel : Nat} {before elements : List Node} {tokens rest : List Token}
    (read : parseElements expr fuel before tokens = .ok (elements,rest)) : rest.length ≤ tokens.length := by
  induction fuel generalizing before tokens with
  | zero => cases read
  | succ fuel ih =>
    rw [parseElements] at read
    split_ifs at read with closed
    · cases read
      exact Nat.le_refl _
    · cases first : expr tokens with
      | error e =>
        rw [first] at read
        cases read
      | ok result =>
        have fewer := consumes tokens result.1 result.2 first
        have shorter := tail_le result.2
        rw [first] at read
        dsimp only at read
        split_ifs at read with comma
        all_goals
          have fewer' := ih read
          omega

lemma parsePrimary_consumes : Consumes (parsePrimary expr) := by
  intro tokens tree rest read
  rw [parsePrimary] at read
  have shorter : peek tokens ≠ .eof → tokens.tail.length < tokens.length := tail_lt
  cases first : peek tokens with
  | number text | string value | bool value | null | path text =>
    rw [first] at read shorter
    cases read
    exact shorter Token.noConfusion
  | lParen =>
    rw [first] at read shorter
    cases inner : expr tokens.tail with
    | error e =>
      rw [inner] at read
      cases read
    | ok result =>
      have fewer := consumes tokens.tail result.1 result.2 inner
      have fewer' := tail_le result.2
      have fewer'' := shorter Token.noConfusion
      rw [inner] at read
      dsimp only at read
      split_ifs at read
      cases read
      omega
  | lBracket =>
    rw [first] at read shorter
    cases inner : parseElements expr (tokens.tail.length + 1) [] tokens.tail with
    | error e =>
      rw [inner] at read
      cases read
    | ok result =>
      have fewer := parseElements_le consumes inner
      have fewer' := tail_le result.2
      have fewer'' := shorter Token.noConfusion
      rw [inner] at read
      cases read
      omega
  | eof | ident word | op o | rParen | rBracket | comma =>
    rw [first] at read
    cases read

lemma parseUnary_consumes : Consumes (parseUnary expr) := by
  intro tokens tree rest read
  have primary := parsePrimary_consumes consumes
  rw [parseUnary] at read
  cases first : peek tokens with
  | op o =>
    have shorter := tail_lt (by rw [first]; exact Token.noConfusion)
    rw [first] at read
    dsimp only at read
    split_ifs at read
    · cases inner : parsePrimary expr tokens.tail with
      | error e =>
        rw [inner] at read
        cases read
      | ok result =>
        have fewer := primary tokens.tail result.1 result.2 inner
        rw [inner] at read
        cases read
        omega
    · exact primary tokens tree rest read
  | _ =>
    rw [first] at read
    exact primary tokens tree rest read

lemma parseLogicalAnd_consumes : Consumes (parseLogicalAnd expr) :=
  chain_consumes (chain_consumes (chain_consumes (chain_consumes (parseUnary_consumes consumes))))

end

lemma parseLogicalOr_consumes (depth : Nat) : Consumes (parseLogicalOr depth) := by
  induction depth with
  | zero =>
    intro tokens tree rest read
    cases read
  | succ depth ih => exact chain_consumes (parseLogicalAnd_consumes ih)

end Consuming

end Tempest.Expr
