import Mathlib.Data.Nat.Basic

/-! Binary search for the first index at which a test that stays true becomes true. -/
namespace BinarySearch

def searchFrom (test : Nat → Bool) : Nat → Nat → Nat → Nat
  | 0,i,_ => i
  | fuel + 1,i,j =>
    if i < j then
      let h := (i + j) / 2
      if test h then searchFrom test fuel i h else searchFrom test fuel (h + 1) j
    else i

def search (n : Nat) (test : Nat → Bool) : Nat := searchFrom test n 0 n

variable {test : Nat → Bool} {n : Nat}

/-- What lies before the window fails the test, and what lies behind it passes. -/
structure Around (test : Nat → Bool) (n i j : Nat) : Prop where
  ordered : i ≤ j
  inside : j ≤ n
  before : ∀ k, k < i → test k = false
  behind : ∀ k, j ≤ k → k < n → test k = true

lemma searchFrom_around (monotone : ∀ k l,k ≤ l → l < n → test k = true → test l = true) {fuel i j : Nat}
    (enough : j - i ≤ fuel) (around : Around test n i j) :
    Around test n (searchFrom test fuel i j) (searchFrom test fuel i j) := by
  induction fuel generalizing i j with
  | zero =>
    have closed : j = i := by have := around.ordered; omega
    subst closed
    exact around
  | succ fuel narrower =>
    rw [searchFrom]
    split_ifs with window
    · have inside := around.inside
      dsimp only
      split_ifs with passes
      · apply narrower (by omega)
        refine ⟨by omega,by omega,around.before,?_⟩
        intro k behind small
        exact monotone _ k behind small passes
      · apply narrower (by omega)
        refine ⟨by omega,inside,?_,around.behind⟩
        intro k before
        by_contra true_
        have passes' := monotone k ((i + j) / 2) (by omega) (by omega) (by simpa using true_)
        exact passes passes'
    · have closed : j = i := by have := around.ordered; omega
      subst closed
      exact around

lemma search_around (monotone : ∀ k l,k ≤ l → l < n → test k = true → test l = true) :
    Around test n (search n test) (search n test) := by
  apply searchFrom_around monotone (Nat.sub_le _ _)
  exact ⟨Nat.zero_le _,Nat.le_refl _,fun k before => absurd before (Nat.not_lt_zero k),fun k behind small => absurd small (by omega)⟩

end BinarySearch
