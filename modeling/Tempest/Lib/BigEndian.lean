import Mathlib.Algebra.Ring.Nat
import Mathlib.Data.List.Basic

/-! Numbers as bytes of a fixed count, the most significant one first. -/
namespace BigEndian

def bytes : Nat → Nat → List UInt8
  | 0, _ => []
  | width + 1, n => bytes width (n / 256) ++ [UInt8.ofNat n]

def value (digits : List UInt8) : Nat := digits.foldl (fun high digit => high * 256 + digit.toNat) 0

@[simp] lemma bytes_length (width n : Nat) : (bytes width n).length = width := by
  induction width generalizing n with
  | zero => rfl
  | succ width ih => rw [bytes,List.length_append,ih,List.length_singleton]

lemma value_bytes (width n : Nat) : value (bytes width n) = n % 256 ^ width := by
  induction width generalizing n with
  | zero => rw [Nat.pow_zero,Nat.mod_one]; rfl
  | succ width ih =>
    have low : (UInt8.ofNat n).toNat = n % 256 := UInt8.toNat_ofNat'
    have last : value (bytes (width + 1) n) = value (bytes width (n / 256)) * 256 + (UInt8.ofNat n).toNat := by
      rw [bytes,value,List.foldl_append]
      rfl
    rw [last,ih,Nat.pow_succ',Nat.mod_mul]
    omega

end BigEndian
