import Mathlib.Data.List.Basic

/-! Left-associative chains in recursive descent. A level reads one operand with the parser of
the next level and then, as long as one of its operators follows, an operator and another
operand. The loop has as much fuel as there are tokens. -/
namespace Chain

abbrev Parser (τ ε α : Type) := List τ → Except ε (α × List τ)

variable {τ ω ε α : Type}

def Consumes (p : Parser τ ε α) : Prop := ∀ tokens tree rest, p tokens = .ok (tree,rest) → rest.length < tokens.length

variable (takes : τ → Option ω) (node : α → ω → α → α) (spent : ε) (operand : Parser τ ε α)

def loop : Nat → α → Parser τ ε α
  | 0, _, _ => .error spent
  | _ + 1, left, [] => .ok (left,[])
  | fuel + 1, left, token :: rest =>
    match takes token with
    | none => .ok (left,token :: rest)
    | some op =>
      match operand rest with
      | .error e => .error e
      | .ok (right,rest) => loop fuel (node left op right) rest

def loops (left : α) : Parser τ ε α := fun tokens => loop takes node spent operand (tokens.length + 1) left tokens

def chain : Parser τ ε α := fun tokens =>
  match operand tokens with
  | .error e => .error e
  | .ok (left,rest) => loops takes node spent operand left rest

section

variable {takes node spent operand} {fuel : Nat} {left : α} {tokens : List τ} {token : τ}

lemma loop_eq_loops (consumes : Consumes operand) (enough : tokens.length < fuel) :
    loop takes node spent operand fuel left tokens = loops takes node spent operand left tokens := by
  have same : ∀ fuel fuel' left tokens,tokens.length < fuel → tokens.length < fuel' →
      loop takes node spent operand fuel left tokens = loop takes node spent operand fuel' left tokens := by
    intro fuel
    induction fuel with
    | zero => intro fuel' left tokens enough; omega
    | succ fuel ih =>
      intro fuel' left tokens enough enough'
      obtain ⟨fuel',rfl⟩ : ∃ n,fuel' = n + 1 := ⟨fuel' - 1,by omega⟩
      cases tokens with
      | nil => rfl
      | cons token rest =>
        rw [loop,loop]
        cases takes token with
        | none => rfl
        | some op =>
          cases read : operand rest with
          | error e => rfl
          | ok result =>
            have fewer := consumes rest result.1 result.2 read
            rw [List.length_cons] at enough enough'
            exact ih fuel' _ _ (by omega) (by omega)
  exact same fuel _ left tokens enough (Nat.lt_succ_self _)

lemma loops_nil (left : α) : loops takes node spent operand left [] = .ok (left,[]) := rfl

lemma loops_stop (left : α) (rest : List τ) (other : takes token = none) :
    loops takes node spent operand left (token :: rest) = .ok (left,token :: rest) := by
  rw [loops,loop,other]

lemma loops_op (consumes : Consumes operand) {op : ω} (left : α) (rest : List τ) (taken : takes token = some op) :
    loops takes node spent operand left (token :: rest) =
      match operand rest with
      | .error e => .error e
      | .ok (right,rest) => loops takes node spent operand (node left op right) rest := by
  rw [loops,loop,taken]
  cases read : operand rest with
  | error e => rfl
  | ok result =>
    have fewer := consumes rest result.1 result.2 read
    exact loop_eq_loops consumes (by rw [List.length_cons]; omega)

lemma loop_le (consumes : Consumes operand) {tree : α} {rest : List τ}
    (read : loop takes node spent operand fuel left tokens = .ok (tree,rest)) : rest.length ≤ tokens.length := by
  induction fuel generalizing left tokens with
  | zero => cases read
  | succ fuel ih =>
    cases tokens with
    | nil =>
      cases read
      exact Nat.le_refl _
    | cons token after =>
      rw [loop] at read
      cases taken : takes token with
      | none =>
        rw [taken] at read
        cases read
        exact Nat.le_refl _
      | some op =>
        rw [taken] at read
        cases right : operand after with
        | error e =>
          rw [right] at read
          cases read
        | ok result =>
          rw [right] at read
          have fewer := consumes after result.1 result.2 right
          have fewer' := ih read
          rw [List.length_cons]
          omega

lemma chain_consumes (consumes : Consumes operand) : Consumes (chain takes node spent operand) := by
  intro tokens tree rest read
  rw [chain] at read
  cases first : operand tokens with
  | error e =>
    rw [first] at read
    cases read
  | ok result =>
    rw [first] at read
    have fewer := consumes tokens result.1 result.2 first
    exact Nat.lt_of_le_of_lt (loop_le consumes read) fewer

end

end Chain
