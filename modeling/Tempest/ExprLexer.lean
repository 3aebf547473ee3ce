import Mathlib.Data.List.Basic

/-! The lexer of `internal/expr`. It reads a text as a list of characters and gives the token
`eof` at its end and at a NUL outside a string. What it knows of Unicode is a parameter of
which only the behaviour on ASCII is fixed. -/
namespace Tempest.Expr
open List

inductive Op
  | eq
  | ne
  | le
  | ge
  | and
  | or
  | lt
  | gt
  | add
  | sub
  | mul
  | div
  | not
  | in_
  | contains
  deriving DecidableEq

def Op.text : Op → List Char
  | eq => ['=','=']
  | ne => ['!','=']
  | le => ['<','=']
  | ge => ['>','=']
  | and => ['&','&']
  | or => ['|','|']
  | lt => ['<']
  | gt => ['>']
  | add => ['+']
  | sub => ['-']
  | mul => ['*']
  | div => ['/']
  | not => ['!']
  | in_ => ['i','n']
  | contains => ['c','o','n','t','a','i','n','s']

inductive Token
  | eof
  | number (text : List Char)
  | string (value : List Char)
  | bool (value : Bool)
  | null
  | path (text : List Char)
  | ident (word : List Char)
  | op (o : Op)
  | lParen
  | rParen
  | lBracket
  | rBracket
  | comma
  deriving DecidableEq

def Token.value : Token → List Char
  | eof => []
  | number text | path text => text
  | string value => value
  | bool true => ['t','r','u','e']
  | bool false => ['f','a','l','s','e']
  | null => ['n','u','l','l']
  | ident word => word
  | op o => o.text
  | lParen => ['(']
  | rParen => [')']
  | lBracket => ['[']
  | rBracket => [']']
  | comma => [',']

/-- The last one stands for fuel that has run out. -/
inductive Failure
  | unterminatedString
  | unexpectedCharacter (c : Char)
  | trailingToken (value : List Char)
  | missingParenthesis
  | expectedComma
  | unexpectedToken (value : List Char)
  | spent
  deriving DecidableEq

def Failure.message : Failure → String
  | unterminatedString => "expr: syntax error: unterminated string literal"
  | unexpectedCharacter c => "expr: syntax error: unexpected character '" ++ c.toString ++ "'"
  | trailingToken value => "expr: syntax error: unexpected trailing token " ++ String.ofList value
  | missingParenthesis => "expr: syntax error: missing closing parenthesis"
  | expectedComma => "expr: syntax error: expected comma or closing bracket"
  | unexpectedToken value => "expr: unexpected token: unexpected token " ++ String.ofList value
  | spent => ""

def whiteSpace : List Char := [' ','\t','\n','\x0b','\x0c','\r']

/-- The tables of the package `unicode`, as far as they are known here. -/
structure Unicode where
  isSpace : Char → Bool
  isLetter : Char → Bool
  isDigit : Char → Bool
  toLower : List Char → List Char
  ascii : ∀ c, c.toNat < 128 → isSpace c = whiteSpace.contains c ∧ isLetter c = c.isAlpha ∧ isDigit c = c.isDigit
  digit_not_space : ∀ c, isDigit c = true → isSpace c = false
  ascii_toLower : ∀ word : List Char, word.all (fun c => c.toNat < 128) = true → toLower word = word.map Char.toLower

def Unicode.basic : Unicode where
  isSpace := whiteSpace.contains
  isLetter := Char.isAlpha
  isDigit := Char.isDigit
  toLower := List.map Char.toLower
  ascii _ _ := ⟨rfl,rfl,rfl⟩
  digit_not_space c digit := by
    cases space : whiteSpace.contains c with
    | false => rfl
    | true =>
      have none_ : whiteSpace.all (fun c => !c.isDigit) = true := by decide
      have other := List.all_eq_true.mp none_ c (List.contains_iff_mem.mp space)
      rw [digit] at other
      cases other
  ascii_toLower _ _ := rfl

section Lexer

variable (u : Unicode)

def skipSpace : List Char → List Char
  | [] => []
  | c :: rest => if c = '\x00' then c :: rest else if u.isSpace c then skipSpace rest else c :: rest

def punctuation (c : Char) : Option Token :=
  if c = '(' then some .lParen
  else if c = ')' then some .rParen
  else if c = '[' then some .lBracket
  else if c = ']' then some .rBracket
  else if c = ',' then some .comma
  else none

def unescape (c : Char) : Char := if c = 'n' then '\n' else if c = 't' then '\t' else c

def stringRest (quote : Char) : List Char → Except Failure (List Char × List Char)
  | [] => .error .unterminatedString
  | c :: rest =>
    if c = '\x00' then .error .unterminatedString
    else if c = quote then .ok ([],rest)
    else if c = '\\' then
      match rest with
      | [] => .error .unterminatedString
      | esc :: rest =>
        match stringRest quote rest with
        | .error e => .error e
        | .ok (value,rest) => .ok (unescape esc :: value,rest)
    else
      match stringRest quote rest with
      | .error e => .error e
      | .ok (value,rest) => .ok (c :: value,rest)

def pathChar (c : Char) : Bool := u.isLetter c || u.isDigit c || c = '.' || c = '_' || c = '-'

def wordChar (c : Char) : Bool := u.isLetter c || u.isDigit c || c = '_'

def numberRest : Bool → List Char → List Char × List Char
  | _, [] => ([],[])
  | hasDot, c :: rest =>
    if u.isDigit c then (c :: (numberRest hasDot rest).1,(numberRest hasDot rest).2)
    else if c = '.' ∧ hasDot = false then (c :: (numberRest true rest).1,(numberRest true rest).2)
    else ([],c :: rest)

def twoChars : List Char → Option Op
  | a :: b :: _ =>
    if a = '=' ∧ b = '=' then some .eq
    else if a = '!' ∧ b = '=' then some .ne
    else if a = '<' ∧ b = '=' then some .le
    else if a = '>' ∧ b = '=' then some .ge
    else if a = '&' ∧ b = '&' then some .and
    else if a = '|' ∧ b = '|' then some .or
    else none
  | _ => none

def oneChar (c : Char) : Option Op :=
  if c = '<' then some .lt
  else if c = '>' then some .gt
  else if c = '+' then some .add
  else if c = '-' then some .sub
  else if c = '*' then some .mul
  else if c = '/' then some .div
  else if c = '!' then some .not
  else none

def wordToken (word : List Char) : Token :=
  let lower := u.toLower word
  if lower = ['t','r','u','e'] then .bool true
  else if lower = ['f','a','l','s','e'] then .bool false
  else if lower = ['n','u','l','l'] ∨ lower = ['n','i','l'] then .null
  else if lower = ['i','n'] then .op .in_
  else if lower = ['c','o','n','t','a','i','n','s'] then .op .contains
  else .ident word

def operatorOrWord (c : Char) (rest : List Char) : Except Failure (Token × List Char) :=
  match twoChars (c :: rest) with
  | some op => .ok (.op op,rest.tail)
  | none =>
    match oneChar c with
    | some op => .ok (.op op,rest)
    | none =>
      if u.isLetter c ∨ c = '_' then
        .ok (wordToken u ((c :: rest).takeWhile (wordChar u)),(c :: rest).dropWhile (wordChar u))
      else .error (.unexpectedCharacter c)

def nextToken (input : List Char) : Except Failure (Token × List Char) :=
  match skipSpace u input with
  | [] => .ok (.eof,[])
  | c :: rest =>
    if c = '\x00' then .ok (.eof,c :: rest)
    else
      match punctuation c with
      | some token => .ok (token,rest)
      | none =>
        if c = '"' ∨ c = '\'' then
          match stringRest c rest with
          | .error e => .error e
          | .ok (value,rest) => .ok (.string value,rest)
        else if c = '$' then .ok (.path (c :: rest.takeWhile (pathChar u)),rest.dropWhile (pathChar u))
        else if u.isDigit c then .ok (.number (numberRest u false (c :: rest)).1,(numberRest u false (c :: rest)).2)
        else operatorOrWord u c rest

def tokenize : Nat → List Char → Except Failure (List Token)
  | 0, _ => .error .spent
  | fuel + 1, input =>
    match nextToken u input with
    | .error e => .error e
    | .ok (token,rest) =>
      if token = .eof then .ok [token]
      else
        match tokenize fuel rest with
        | .error e => .error e
        | .ok tokens => .ok (token :: tokens)

end Lexer

/-- Tokens read from the front of a text, without the end. -/
inductive Scans (u : Unicode) : List Char → List Token → List Char → Prop
  | done (rest : List Char) : Scans u rest [] rest
  | token {input rest rest' : List Char} {token : Token} {tokens : List Token} (read : nextToken u input = .ok (token,rest))
      (inner : token ≠ .eof) (shorter : rest.length < input.length) (more : Scans u rest tokens rest') :
      Scans u input (token :: tokens) rest'

def Stops (rest : List Char) : Prop := ∀ c ∈ rest.head?, c ∈ [' ',')',']',',']

section Scan

variable {u : Unicode} {input rest : List Char}

variable {tokens : List Token} {token : Token} {c : Char} {text value after : List Char} {o : Op}

lemma Scans.append {middle : List Char} {tokens' : List Token} (first : Scans u input tokens middle)
    (second : Scans u middle tokens' rest) : Scans u input (tokens ++ tokens') rest := by
  induction first with
  | done => exact second
  | token read inner shorter _ ih => exact .token read inner shorter (ih second)

lemma Scans.one (read : nextToken u input = .ok (token,rest)) (inner : token ≠ .eof)
    (shorter : rest.length < input.length) : Scans u input [token] rest := .token read inner shorter (.done rest)

lemma Scans.tokenize (scans : Scans u input tokens []) {fuel : Nat} (enough : input.length < fuel) :
    tokenize u fuel input = .ok (tokens ++ [.eof]) := by
  generalize ended : ([]) = rest at scans
  induction scans generalizing fuel with
  | done =>
    subst ended
    obtain ⟨fuel,rfl⟩ : ∃ n,fuel = n + 1 := ⟨fuel - 1,by omega⟩
    rfl
  | token read inner shorter _ ih =>
    obtain ⟨fuel,rfl⟩ : ∃ n,fuel = n + 1 := ⟨fuel - 1,by omega⟩
    rw [Expr.tokenize,read]
    dsimp only
    rw [if_neg inner,ih (by omega) ended]
    rfl

lemma skipSpace_of_not (other : u.isSpace c = false) : skipSpace u (c :: rest) = c :: rest := by
  rw [skipSpace,other,if_neg Bool.false_ne_true,ite_self]

lemma nextToken_blank : nextToken u (' ' :: rest) = nextToken u rest := by
  have space : u.isSpace ' ' = true := (u.ascii ' ' (by decide)).1
  rw [nextToken,nextToken,skipSpace,if_neg (by decide),if_pos space]

lemma Scans.blank (scans : Scans u input tokens rest) (some_ : tokens ≠ []) :
    Scans u (' ' :: input) tokens rest := by
  cases scans with
  | done => exact absurd rfl some_
  | token read inner shorter more =>
    exact .token (nextToken_blank.trans read) inner (Nat.lt_succ_of_lt shorter) more

lemma not_space (ascii : c.toNat < 128) (visible : c ∉ whiteSpace) : u.isSpace c = false := by
  rw [(u.ascii c ascii).1]
  exact Bool.eq_false_iff.mpr (fun inside => visible (contains_iff_mem.mp inside))

lemma scans_punctuation (found : punctuation c = some token) (ascii : c.toNat < 128)
    (visible : c ∉ whiteSpace) (some_ : c ≠ '\x00') (inner : token ≠ .eof) : Scans u (c :: rest) [token] rest := by
  apply Scans.one _ inner (Nat.lt_succ_self _)
  rw [nextToken,skipSpace_of_not (not_space ascii visible)]
  dsimp only
  rw [if_neg some_,found]

lemma scans_lParen : Scans u ('(' :: rest) [.lParen] rest :=
  scans_punctuation rfl (by decide) (by decide) (by decide) (by decide)

lemma scans_rParen : Scans u (')' :: rest) [.rParen] rest :=
  scans_punctuation rfl (by decide) (by decide) (by decide) (by decide)

lemma scans_lBracket : Scans u ('[' :: rest) [.lBracket] rest :=
  scans_punctuation rfl (by decide) (by decide) (by decide) (by decide)

lemma scans_rBracket : Scans u (']' :: rest) [.rBracket] rest :=
  scans_punctuation rfl (by decide) (by decide) (by decide) (by decide)

lemma scans_comma : Scans u (',' :: rest) [.comma] rest :=
  scans_punctuation rfl (by decide) (by decide) (by decide) (by decide)

lemma stop_spec (stop : c ∈ [' ',')',']',',']) : pathChar u c = false ∧ wordChar u c = false ∧ u.isDigit c = false ∧ c ≠ '.' := by
  have all : [' ',')',']',','].all (fun c => c.toNat < 128 && !c.isAlpha && !c.isDigit && c != '.' && c != '_' && c != '-') = true := by
    decide
  have known := all_eq_true.mp all c stop
  simp only [Bool.and_eq_true,decide_eq_true_eq,Bool.not_eq_true',bne_iff_ne] at known
  obtain ⟨⟨⟨⟨⟨ascii,alpha⟩,digit⟩,dot⟩,underscore⟩,minus⟩ := known
  obtain ⟨-,letter,digit'⟩ := u.ascii c ascii
  rw [alpha] at letter
  rw [digit] at digit'
  simp [pathChar,wordChar,letter,digit',dot,underscore,minus]

lemma takeWhile_stop {test : Char → Bool} (all : ∀ c ∈ text,test c = true)
    (stop : ∀ c ∈ rest.head?,test c = false) :
    (text ++ rest).takeWhile test = text ∧ (text ++ rest).dropWhile test = rest := by
  rw [takeWhile_append_of_pos all,dropWhile_append_of_pos all]
  cases rest with
  | nil => simp
  | cons c rest => simp [stop c rfl]

def Numeral (u : Unicode) (text : List Char) : Prop :=
  (∃ c tail, text = c :: tail ∧ u.isDigit c = true) ∧ numberRest u false text = (text,[])

def PathText (u : Unicode) (text : List Char) : Prop := ∃ tail, text = '$' :: tail ∧ ∀ c ∈ tail, pathChar u c = true

lemma numberRest_append {hasDot : Bool} (whole : numberRest u hasDot text = (text,[])) (stops : Stops rest) :
    numberRest u hasDot (text ++ rest) = (text,rest) := by
  induction text generalizing hasDot with
  | nil =>
    cases rest with
    | nil => rfl
    | cons c rest =>
      obtain ⟨-,-,digit,dot⟩ := stop_spec (u := u) (stops c rfl)
      rw [nil_append,numberRest,digit,if_neg Bool.false_ne_true,if_neg (fun both => dot both.1)]
  | cons c text ih =>
    rw [numberRest] at whole
    rw [cons_append,numberRest]
    split_ifs at whole ⊢ with digit point
    · rw [Prod.mk.injEq,List.cons.injEq] at whole
      rw [ih (Prod.ext whole.1.2 whole.2)]
    · rw [Prod.mk.injEq,List.cons.injEq] at whole
      rw [ih (Prod.ext whole.1.2 whole.2)]
    · cases whole

lemma digit_spec (digit : u.isDigit c = true) :
    u.isSpace c = false ∧ c ≠ '\x00' ∧ punctuation c = none ∧ ¬ (c = '"' ∨ c = '\'') ∧ c ≠ '$' ∧ c ≠ '=' := by
  have apart : c ∉ ['\x00','(',')','[',']',',','"','\'','$','='] := by
    intro inside
    have all : ['\x00','(',')','[',']',',','"','\'','$','='].all (fun c => c.toNat < 128 && !c.isDigit) = true := by decide
    have known := all_eq_true.mp all c inside
    simp only [Bool.and_eq_true,decide_eq_true_eq,Bool.not_eq_true'] at known
    rw [(u.ascii c known.1).2.2,known.2] at digit
    cases digit
  simp only [mem_cons,not_or] at apart
  obtain ⟨nul,left,right,open_,close,comma,double,single,dollar,equal,-⟩ := apart
  refine ⟨u.digit_not_space c digit,nul,?_,not_or.mpr ⟨double,single⟩,dollar,equal⟩
  rw [punctuation,if_neg left,if_neg right,if_neg open_,if_neg close,if_neg comma]

lemma scans_number (numeral : Numeral u text) (stops : Stops rest) :
    Scans u (text ++ rest) [.number text] rest := by
  obtain ⟨⟨c,tail,rfl,digit⟩,whole⟩ := numeral
  obtain ⟨space,nul,mark,quote,dollar,-⟩ := digit_spec digit
  apply Scans.one _ Token.noConfusion (by rw [length_append,length_cons]; omega)
  rw [cons_append,nextToken,skipSpace_of_not space]
  dsimp only
  rw [if_neg nul,mark]
  rw [if_neg quote,if_neg dollar,if_pos digit,← cons_append,numberRest_append whole stops]

lemma scans_path (path : PathText u text) (stops : Stops rest) : Scans u (text ++ rest) [.path text] rest := by
  obtain ⟨tail,rfl,all⟩ := path
  apply Scans.one _ Token.noConfusion (by rw [length_append,length_cons]; omega)
  obtain ⟨taken,left⟩ := takeWhile_stop all (fun c member => (stop_spec (stops c member)).1)
  rw [cons_append,nextToken,skipSpace_of_not (not_space (by decide) (by decide))]
  dsimp only
  rw [if_neg (by decide),show punctuation '$' = none from rfl]
  rw [if_neg (by decide),if_pos rfl,taken,left]

def escape (c : Char) : List Char := if c = '"' ∨ c = '\\' ∨ c = '\x00' then ['\\',c] else [c]

lemma stringRest_quote : stringRest '"' ('"' :: rest) = .ok ([],rest) := by cases rest <;> rfl

lemma stringRest_backslash (c : Char) (more : stringRest '"' rest = .ok (value,after)) :
    stringRest '"' ('\\' :: c :: rest) = .ok (unescape c :: value,after) := by
  rw [stringRest,if_neg (by decide),if_neg (by decide),if_pos rfl,more]

lemma stringRest_plain (plain : ¬ (c = '"' ∨ c = '\\' ∨ c = '\x00'))
    (more : stringRest '"' rest = .ok (value,after)) : stringRest '"' (c :: rest) = .ok (c :: value,after) := by
  simp only [not_or] at plain
  obtain ⟨quote,backslash,nul⟩ := plain
  cases rest with
  | nil => cases more
  | cons d rest => rw [stringRest,if_neg nul,if_neg quote,if_neg backslash,more]

lemma stringRest_escape (value : List Char) : stringRest '"' (value.flatMap escape ++ '"' :: rest) = .ok (value,rest) := by
  induction value with
  | nil => exact stringRest_quote
  | cons c value ih =>
    rw [flatMap_cons,escape]
    split_ifs with special
    · have same : unescape c = c := by rcases special with rfl | rfl | rfl <;> rfl
      have read := stringRest_backslash c ih
      rw [same] at read
      exact read
    · exact stringRest_plain special ih

lemma scans_string (value : List Char) : Scans u ('"' :: (value.flatMap escape ++ '"' :: rest)) [.string value] rest := by
  apply Scans.one _ Token.noConfusion (by rw [length_cons,length_append,length_cons]; omega)
  rw [nextToken,skipSpace_of_not (not_space (by decide) (by decide))]
  dsimp only
  rw [if_neg (by decide),show punctuation '"' = none from rfl]
  rw [if_pos (.inl rfl),stringRest_escape]

lemma nextToken_start (start : c ∈ ['=','!','<','>','&','|','+','-','*','/','t','f','n','i','c']) :
    nextToken u (c :: rest) = operatorOrWord u c rest := by
  have all : ['=','!','<','>','&','|','+','-','*','/','t','f','n','i','c'].all (fun c => c.toNat < 128 && !whiteSpace.contains c &&
      !c.isDigit && c != '\x00' && punctuation c == none && c != '"' && c != '\'' && c != '$') = true := by decide
  have known := all_eq_true.mp all c start
  simp only [Bool.and_eq_true,decide_eq_true_eq,Bool.not_eq_true',bne_iff_ne,beq_iff_eq] at known
  obtain ⟨⟨⟨⟨⟨⟨⟨ascii,visible⟩,digit⟩,nul⟩,mark⟩,double⟩,single⟩,dollar⟩ := known
  obtain ⟨space,-,digit'⟩ := u.ascii c ascii
  rw [visible] at space
  rw [digit] at digit'
  rw [nextToken,skipSpace_of_not space]
  dsimp only
  rw [if_neg nul,mark]
  rw [if_neg (not_or.mpr ⟨double,single⟩),if_neg dollar,digit',if_neg Bool.false_ne_true]

lemma wordChar_of_alpha (ascii : c.toNat < 128) (alpha : c.isAlpha = true) : wordChar u c = true := by
  rw [wordChar,(u.ascii c ascii).2.1,alpha]
  rfl

lemma scans_word {tail : List Char} (start : c ∈ ['t','f','n','i','c'])
    (all : (c :: tail).all (fun c => c.toNat < 128 && c.isAlpha) = true) (known : wordToken u (c :: tail) = token)
    (inner : token ≠ .eof) (stops : Stops rest) : Scans u (c :: (tail ++ rest)) [token] rest := by
  have letters : ∀ d ∈ c :: tail,d.toNat < 128 ∧ d.isAlpha = true := by
    intro d member
    have both := all_eq_true.mp all d member
    rw [Bool.and_eq_true,decide_eq_true_eq] at both
    exact both
  obtain ⟨taken,left⟩ := takeWhile_stop (fun d member => wordChar_of_alpha (letters d member).1 (letters d member).2)
    (fun d member => (stop_spec (stops d member)).2.1)
  have letter := (u.ascii c (letters c mem_cons_self).1).2.1.trans (letters c mem_cons_self).2
  have none_ : ∀ rest,twoChars (c :: rest) = none ∧ oneChar c = none := by
    intro rest
    have apart : ['t','f','n','i','c'].all (fun c => c != '=' && c != '!' && c != '<' && c != '>' && c != '&' && c != '|' &&
        oneChar c == none) = true := by decide
    have known := all_eq_true.mp apart c start
    simp only [Bool.and_eq_true,bne_iff_ne,beq_iff_eq] at known
    obtain ⟨⟨⟨⟨⟨⟨eq,not_⟩,lt⟩,gt⟩,and_⟩,or_⟩,one⟩ := known
    refine ⟨?_,one⟩
    cases rest with
    | nil => rfl
    | cons b rest => simp [twoChars,eq,not_,lt,gt,and_,or_]
  apply Scans.one _ inner (by rw [length_cons,length_append]; omega)
  rw [nextToken_start (by revert start; simp +contextual),operatorOrWord,(none_ _).1]
  rw [(none_ []).2]
  rw [if_pos (.inl letter),← cons_append,taken,left,known]

lemma wordToken_eq {word : List Char} (ascii : word.all (fun c => c.toNat < 128) = true) :
    wordToken u word = wordToken .basic word := by
  rw [wordToken,u.ascii_toLower word ascii]
  rfl

lemma scans_bool (value : Bool) (stops : Stops rest) : Scans u ((Token.bool value).value ++ rest) [.bool value] rest := by
  cases value with
  | true
  | false => exact scans_word (by decide) (by decide) ((wordToken_eq (by decide)).trans (by decide)) Token.noConfusion stops

lemma scans_null (stops : Stops rest) : Scans u (Token.null.value ++ rest) [.null] rest :=
  scans_word (by decide) (by decide) ((wordToken_eq (by decide)).trans (by decide)) Token.noConfusion stops

lemma scans_symbol (tail : List Char) (start : c ∈ ['=','!','<','>','&','|','+','-','*','/','t','f','n','i','c'])
    (read : operatorOrWord u c (tail ++ rest) = .ok (.op o,rest)) : Scans u (c :: (tail ++ rest)) [.op o] rest :=
  Scans.one ((nextToken_start start).trans read) Token.noConfusion (by rw [length_cons,length_append]; omega)

lemma scans_op (o : Op) : Scans u (o.text ++ ' ' :: rest) [.op o] (' ' :: rest) := by
  have stops : Stops (' ' :: rest) := by
    intro c member
    cases member
    exact mem_cons_self
  cases o with
  | in_
  | contains => exact scans_word (by decide) (by decide) ((wordToken_eq (by decide)).trans (by decide)) Token.noConfusion stops
  | eq | ne | le | ge => exact scans_symbol ['='] (by decide) rfl
  | and => exact scans_symbol ['&'] (by decide) rfl
  | or => exact scans_symbol ['|'] (by decide) rfl
  | lt | gt | add | sub | mul | div | not => exact scans_symbol [] (by decide) rfl

lemma scans_unary (unary : o = .not ∨ o = .sub) (apart : ∀ c ∈ rest.head?, c ≠ '=') :
    Scans u (o.text ++ rest) [.op o] rest := by
  rcases unary with rfl | rfl
  · apply scans_symbol [] (by decide)
    cases rest with
    | nil => rfl
    | cons b rest =>
      have other := apart b rfl
      have two : twoChars ('!' :: b :: rest) = none := by simp [twoChars,other]
      rw [nil_append,operatorOrWord,two]
      rfl
  · apply scans_symbol [] (by decide)
    cases rest with
    | nil => rfl
    | cons b rest =>
      have two : twoChars ('-' :: b :: rest) = none := by simp [twoChars]
      rw [operatorOrWord]
      rfl

end Scan

end Tempest.Expr
