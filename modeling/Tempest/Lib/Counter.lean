import Mathlib.Data.List.Basic

/-! Machine counters that wrap around. -/
namespace Counter

lemma lt_next {n : UInt64} (fits : n + 1 ≠ 0) : n < n + 1 := by
  have positive : (n + 1).toNat ≠ 0 := fun zero => fits (UInt64.toNat_inj.mp zero)
  rw [UInt64.lt_iff_toNat_lt]
  rw [UInt64.toNat_add] at positive ⊢
  have small := n.toNat_lt
  simp only [UInt64.reduceToNat] at positive ⊢
  omega

lemma next_eq_one {n : UInt64} : n + 1 = 1 ↔ n = 0 := by
  constructor
  · intro one
    exact (UInt64.add_left_inj 1).mp one
  · rintro rfl
    rfl

end Counter
