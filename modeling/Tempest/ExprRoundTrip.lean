import Tempest.ExprPrinter

/-! Printed expressions read back. The levels of the parser are one family over the levels of
the operators. What a level makes of the tokens of an expression does not depend on how strong
the expression is: it goes on with the loop of that level, after the expression. -/
namespace Tempest.Expr
open Chain List

def levelOps : Nat → List Op
  | 1 => [.or]
  | 2 => [.and]
  | 3 => [.eq,.ne,.lt,.le,.gt,.ge,.in_,.contains]
  | 4 => [.add,.sub]
  | 5 => [.mul,.div]
  | _ => []

def parseAt (expr : Parse) : Nat → Parse
  | 1 => parseChain [.or] (parseLogicalAnd expr)
  | 2 => parseLogicalAnd expr
  | 3 => parseComparison expr
  | 4 => parseAddSub expr
  | 5 => parseMulDiv expr
  | 6 => parseUnary expr
  | _ => parsePrimary expr

def continueAt (expr : Parse) (k : Nat) (left : Node) : Parse :=
  loops (among (levelOps k)) Node.binary .spent (parseAt expr (k + 1)) left

def Follows (k : Nat) (rest : List Token) : Prop := ∀ o, rest.head? = some (.op o) → o.level ≤ k

section Levels

variable {expr : Parse} {k : Nat} {tokens rest : List Token} {t : Node}

lemma parseAt_eq (low : 1 ≤ k) (high : k ≤ 5) : parseAt expr k = parseChain (levelOps k) (parseAt expr (k + 1)) := by
  obtain rfl | rfl | rfl | rfl | rfl : k = 1 ∨ k = 2 ∨ k = 3 ∨ k = 4 ∨ k = 5 := by omega
  all_goals rfl

variable {o : Op} {j depth : Nat} {token : Token}

lemma mem_levelOps (member : o ∈ levelOps k) : o.level = k := by
  unfold levelOps at member
  split at member
  · rw [mem_singleton.mp member]
    rfl
  · rw [mem_singleton.mp member]
    rfl
  · revert member
    cases o <;> decide
  · revert member
    cases o <;> decide
  · revert member
    cases o <;> decide
  · cases member

lemma levelOps_level (binary : o ≠ .not) : o ∈ levelOps o.level := by
  revert binary
  cases o <;> decide

lemma level_bounds (binary : o ≠ .not) : 1 ≤ o.level ∧ o.level ≤ 5 := by
  revert binary
  cases o <;> decide

lemma parseAt_consumes (consumes : Consumes expr) (k : Nat) : Consumes (parseAt expr k) := by
  have unary := parseUnary_consumes consumes
  have mulDiv : Consumes (parseMulDiv expr) := chain_consumes unary
  have addSub : Consumes (parseAddSub expr) := chain_consumes mulDiv
  have comparison : Consumes (parseComparison expr) := chain_consumes addSub
  have and_ : Consumes (parseLogicalAnd expr) := chain_consumes comparison
  unfold parseAt
  split
  · exact chain_consumes and_
  · exact and_
  · exact comparison
  · exact addSub
  · exact mulDiv
  · exact unary
  · exact parsePrimary_consumes consumes

lemma Follows.mono (follows : Follows k rest) (le : k ≤ j) : Follows j rest :=
  fun o first => Nat.le_trans (follows o first) le

lemma follows_five : Follows 5 rest := by
  intro o _
  cases o <;> decide

lemma follows_cons (other : ∀ o,token ≠ .op o) : Follows k (token :: rest) := by
  intro o first
  exact absurd (Option.some.inj first) (other o)

lemma continueAt_stop (follows : Follows k rest) (lt : k < j) : continueAt expr j t rest = .ok (t,rest) := by
  cases rest with
  | nil => exact loops_nil t
  | cons token rest =>
    apply loops_stop
    cases token with
    | op o =>
      have weaker := follows o rfl
      have absent : o ∉ levelOps j := by
        intro member
        have same := mem_levelOps member
        omega
      exact if_neg absent
    | _ => rfl

lemma continueAt_op (consumes : Consumes expr) (binary : o ≠ .not) {right : Node} {after : List Token}
    (read : parseAt expr (o.level + 1) rest = .ok (right,after)) :
    continueAt expr o.level t (.op o :: rest) = continueAt expr o.level (.binary t o right) after := by
  have taken : among (levelOps o.level) (.op o) = some o := if_pos (levelOps_level binary)
  rw [continueAt,loops_op (parseAt_consumes consumes _) t rest taken,read]
  rfl

lemma parseAt_descend (low : 1 ≤ k) (le : k ≤ j) (high : j ≤ 6) (follows : Follows k rest)
    (read : parseAt expr j tokens = continueAt expr j t rest) : parseAt expr k tokens = continueAt expr k t rest := by
  induction le with
  | refl => exact read
  | @step m le ih =>
    have le' : k ≤ m := le
    apply ih (by omega)
    rw [continueAt_stop (follows.mono le') (Nat.lt_succ_self m)] at read
    rw [parseAt_eq (by omega) (by omega),parseChain,chain,read]
    rfl

lemma parseAt_primary (low : 1 ≤ k) (high : k ≤ 7) (other : ∀ o,token ≠ .op o) (follows : Follows k rest)
    (read : parsePrimary expr (token :: tokens) = .ok (t,rest)) : parseAt expr k (token :: tokens) = continueAt expr k t rest := by
  by_cases top : k = 7
  · subst top
    rw [continueAt_stop follows_five (by decide)]
    exact read
  · apply parseAt_descend low (by omega) (Nat.le_refl 6) follows
    rw [continueAt_stop follows_five (by decide),parseAt]
    cases token with
    | op o => exact absurd rfl (other o)
    | _ => exact read

lemma parseLogicalOr_before (other : ∀ o,token ≠ .op o)
    (read : ∀ rest,Follows 1 rest → parseAt (parseLogicalOr depth) 1 (tokens ++ rest) = continueAt (parseLogicalOr depth) 1 t rest) :
    parseLogicalOr (depth + 1) (tokens ++ token :: rest) = .ok (t,token :: rest) := by
  have stop : Follows 0 (token :: rest) := follows_cons other
  have whole := read (token :: rest) (stop.mono (by decide))
  rw [continueAt_stop stop (by decide)] at whole
  exact whole

lemma parseAt_parensTokens {level : Nat} (least : 1 ≤ level) (low : 1 ≤ k) (high : k ≤ 7)
    (bare : ∀ k depth rest,1 ≤ k → k ≤ level → tokens.length ≤ depth → Follows k rest →
      parseAt (parseLogicalOr depth) k (tokens ++ rest) = continueAt (parseLogicalOr depth) k t rest)
    (enough : (parensTokens (level < k) tokens).length ≤ depth) (follows : Follows k rest) :
    parseAt (parseLogicalOr depth) k (parensTokens (level < k) tokens ++ rest) = continueAt (parseLogicalOr depth) k t rest := by
  rw [parensTokens] at enough ⊢
  by_cases weak : level < k
  · rw [if_pos (decide_eq_true weak)] at enough ⊢
    rw [length_cons,length_append] at enough
    obtain ⟨depth,rfl⟩ : ∃ n,depth = n + 1 := ⟨depth - 1,by omega⟩
    rw [cons_append,append_assoc,singleton_append]
    apply parseAt_primary low high (fun o => Token.noConfusion) follows
    have inner : parseLogicalOr (depth + 1) (tokens ++ .rParen :: rest) = .ok (t,.rParen :: rest) :=
      parseLogicalOr_before (fun o => Token.noConfusion) (fun rest => bare 1 depth rest (Nat.le_refl 1) least (by omega))
    rw [parsePrimary]
    dsimp only [peek,headD_cons,tail_cons]
    rw [inner]
    rfl
  · rw [if_neg (by simpa using weak)] at enough ⊢
    exact bare k depth rest low (by omega) enough follows

end Levels

section Trees

variable {u : Unicode}

lemma peek_tokensAt : ∀ (t : Node) (k : Nat) (rest : List Token), peek (tokensAt 7 k t ++ rest) ≠ .rBracket
  | .number text, k, rest
  | .path text, k, rest
  | .string value, k, rest
  | .bool value, k, rest
  | .null, k, rest
  | .list [], k, rest
  | .list (e :: es), k, rest => Token.noConfusion
  | .unary o e, k, rest => by
    rw [tokensAt,parensTokens]
    split_ifs
    all_goals exact Token.noConfusion
  | .binary l o r, k, rest => by
    rw [tokensAt,parensTokens]
    split_ifs
    · exact Token.noConfusion
    · rw [append_assoc]
      exact peek_tokensAt l o.level _

lemma length_tokensMore (es : List Node) : es.length ≤ (tokensMore 7 es).length := by
  induction es with
  | nil => exact Nat.le_refl _
  | cons e es ih =>
    rw [tokensMore,length_cons,length_cons,length_append]
    omega

section Elements

variable {expr : Parse} {fuel : Nat} {before : List Node} {e : Node} {tokens rest : List Token}

lemma parseElements_comma (open_ : peek tokens ≠ .rBracket) (read : expr tokens = .ok (e,.comma :: rest)) :
    parseElements expr (fuel + 1) before tokens = parseElements expr fuel (before ++ [e]) rest := by
  rw [parseElements,if_neg open_,read]
  rfl

lemma parseElements_last (open_ : peek tokens ≠ .rBracket) (read : expr tokens = .ok (e,.rBracket :: rest)) :
    parseElements expr (fuel + 2) before tokens = .ok (before ++ [e],.rBracket :: rest) := by
  rw [parseElements,if_neg open_,read]
  rfl

end Elements

mutual

lemma parseAt_tokensAt : ∀ (t : Node) (k depth : Nat) (rest : List Token),WellFormed u t → 1 ≤ k → k ≤ 7 →
    (tokensAt 7 k t).length ≤ depth → Follows k rest →
    parseAt (parseLogicalOr depth) k (tokensAt 7 k t ++ rest) = continueAt (parseLogicalOr depth) k t rest
  | .number text,k,depth,rest,formed,low,high,enough,follows
  | .path text,k,depth,rest,formed,low,high,enough,follows
  | .string value,k,depth,rest,formed,low,high,enough,follows
  | .bool value,k,depth,rest,formed,low,high,enough,follows
  | .null,k,depth,rest,formed,low,high,enough,follows
  | .list [],k,depth,rest,formed,low,high,enough,follows => parseAt_primary low high (fun o => Token.noConfusion) follows rfl
  | .list (e :: es),k,depth,rest,formed,low,high,enough,follows => by
    rw [tokensAt] at enough ⊢
    rw [length_cons,length_append,length_append] at enough
    obtain ⟨depth,rfl⟩ : ∃ n,depth = n + 1 := ⟨depth - 1,by omega⟩
    have elements := parseElements_tokensMore es e (parseAt_tokensAt e 1 depth · formed.1 (by decide) (by decide) (by omega))
      ((tokensAt 7 1 e ++ (tokensMore 7 es ++ .rBracket :: rest)).length + 1) [] rest formed.2 (by omega) (by
        have counted := length_tokensMore es
        rw [length_append,length_append,length_cons]
        omega)
    rw [cons_append,append_assoc,append_assoc,singleton_append]
    apply parseAt_primary low high (fun o => Token.noConfusion) follows
    rw [parsePrimary]
    dsimp only [peek,headD_cons,tail_cons]
    rw [elements]
    rfl
  | .unary o e,k,depth,rest,formed,low,high,enough,follows => by
    -- without parentheses, at the level of the unary operators or a weaker one
    have bare : ∀ k depth rest,1 ≤ k → k ≤ 6 → (.op o :: tokensAt 7 7 e).length ≤ depth → Follows k rest →
        parseAt (parseLogicalOr depth) k ((.op o :: tokensAt 7 7 e) ++ rest) = continueAt (parseLogicalOr depth) k (.unary o e) rest := by
      intro k depth rest low high enough follows
      apply parseAt_descend low high (Nat.le_refl 6) follows
      rw [length_cons] at enough
      have operand := parseAt_tokensAt e 7 depth rest formed.2 (by decide) (by decide) (by omega) (follows_five.mono (by decide))
      rw [continueAt_stop follows_five (by decide)] at operand ⊢
      have operand' : parsePrimary (parseLogicalOr depth) (tokensAt 7 7 e ++ rest) = .ok (e,rest) := operand
      rw [parseAt,parseUnary,cons_append]
      dsimp only [peek,headD_cons,tail_cons]
      rw [if_pos formed.1,operand']
    exact parseAt_parensTokens (by decide) low high bare enough follows
  | .binary l o r,k,depth,rest,formed,low,high,enough,follows => by
    obtain ⟨binary,left,right⟩ := formed
    obtain ⟨least,most⟩ := level_bounds binary
    have bare : ∀ k depth rest,1 ≤ k → k ≤ o.level →
        (tokensAt 7 o.level l ++ .op o :: tokensAt 7 (o.level + 1) r).length ≤ depth → Follows k rest →
        parseAt (parseLogicalOr depth) k ((tokensAt 7 o.level l ++ .op o :: tokensAt 7 (o.level + 1) r) ++ rest) =
          continueAt (parseLogicalOr depth) k (.binary l o r) rest := by
      intro k depth rest low high enough follows
      rw [length_append,length_cons] at enough
      apply parseAt_descend low high (by omega) follows
      have own : Follows o.level (.op o :: (tokensAt 7 (o.level + 1) r ++ rest)) := by
        intro o' first
        cases first
        exact Nat.le_refl _
      have second := parseAt_tokensAt r (o.level + 1) depth rest right (by omega) (by omega) (by omega)
        (follows.mono (by omega))
      rw [continueAt_stop (follows.mono high) (Nat.lt_succ_self _)] at second
      rw [append_assoc,cons_append,parseAt_tokensAt l o.level depth _ left least (by omega) (by omega) own]
      exact continueAt_op (parseLogicalOr_consumes depth) binary second
    exact parseAt_parensTokens least low high bare enough follows

lemma parseElements_tokensMore : ∀ (es : List Node) (e : Node) {depth : Nat},
    (∀ rest,Follows 1 rest → parseAt (parseLogicalOr depth) 1 (tokensAt 7 1 e ++ rest) = continueAt (parseLogicalOr depth) 1 e rest) →
    ∀ (fuel : Nat) (before : List Node) (rest : List Token),AllWellFormed u es → (tokensMore 7 es).length ≤ depth →
    es.length + 2 ≤ fuel →
    parseElements (parseLogicalOr (depth + 1)) fuel before (tokensAt 7 1 e ++ (tokensMore 7 es ++ .rBracket :: rest)) =
      .ok (before ++ e :: es,.rBracket :: rest)
  | [],e,depth,first,fuel,before,rest,formed,enough,fuelled => by
    obtain ⟨fuel,rfl⟩ : ∃ n,fuel = n + 2 := ⟨fuel - 2,by rw [length_nil] at fuelled; omega⟩
    have read : parseLogicalOr (depth + 1) (tokensAt 7 1 e ++ .rBracket :: rest) = .ok (e,.rBracket :: rest) :=
      parseLogicalOr_before (fun o => Token.noConfusion) first
    rw [tokensMore,nil_append,parseElements_last (peek_tokensAt e 1 _) read]
  | e' :: es,e,depth,first,fuel,before,rest,formed,enough,fuelled => by
    rw [tokensMore,length_cons,length_append] at enough
    rw [length_cons] at fuelled
    obtain ⟨fuel,rfl⟩ : ∃ n,fuel = n + 1 := ⟨fuel - 1,by omega⟩
    have read : parseLogicalOr (depth + 1) (tokensAt 7 1 e ++ .comma :: (tokensAt 7 1 e' ++ (tokensMore 7 es ++ .rBracket :: rest))) =
        .ok (e,.comma :: (tokensAt 7 1 e' ++ (tokensMore 7 es ++ .rBracket :: rest))) :=
      parseLogicalOr_before (fun o => Token.noConfusion) first
    have others := parseElements_tokensMore es e'
      (fun rest => parseAt_tokensAt e' 1 depth rest formed.1 (by decide) (by decide) (by omega))
      fuel (before ++ [e]) rest formed.2 (by omega) (by omega)
    rw [tokensMore,cons_append,append_assoc,parseElements_comma (peek_tokensAt e 1 _) read,others,
      append_assoc,singleton_append]

end

/-- Printed with the operands of unary operators as primary expressions, every expression is
read back. -/
theorem parse_print (u : Unicode) (t : Node) (formed : WellFormed u t) : parse u (print 7 t) = .ok t := by
  have scans : Scans u (render 7 1 t ++ []) (tokensAt 7 1 t) [] := scans_render t 1 [] formed (fun c member => nomatch member)
  rw [append_nil] at scans
  have read : parseLogicalOr ((tokensAt 7 1 t ++ [Token.eof]).length + 1) (tokensAt 7 1 t ++ [.eof]) = .ok (t,[.eof]) := by
    apply parseLogicalOr_before (fun o => Token.noConfusion)
    intro rest follows
    apply parseAt_tokensAt t 1 _ rest formed (Nat.le_refl 1) (by decide) _ follows
    rw [length_append]
    omega
  rw [parse,print,scans.tokenize (Nat.lt_succ_self _)]
  dsimp only
  rw [read]
  rfl

/-- The text is `!(!true) && [-1, "\""]`. -/
theorem parse_print_nested :
    parse Unicode.basic (print 7 (.binary (.unary .not (.unary .not (.bool true))) .and
        (.list [.unary .sub (.number ['1']),.string ['"']]))) =
      .ok (.binary (.unary .not (.unary .not (.bool true))) .and (.list [.unary .sub (.number ['1']),.string ['"']])) :=
  parse_print Unicode.basic _
    ⟨Op.noConfusion,⟨.inl rfl,.inl rfl,trivial⟩,⟨.inr rfl,⟨'1',[],rfl,rfl⟩,rfl⟩,trivial,trivial⟩

/-- A negation of a negation needs no parentheses by the levels, and is not read without them. -/
theorem double_negation_unread :
    WellFormed Unicode.basic (.unary .not (.unary .not (.bool true))) ∧
      print 6 (.unary .not (.unary .not (.bool true))) = ['!','!','t','r','u','e'] ∧
      parse Unicode.basic (print 6 (.unary .not (.unary .not (.bool true)))) = .error (.unexpectedToken ['!']) :=
  ⟨⟨.inl rfl,.inl rfl,trivial⟩,rfl,rfl⟩

end Trees

end Tempest.Expr
