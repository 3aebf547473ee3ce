import Mathlib.Data.List.Infix

/-! Texts joined by a separator. The last separator of a text splits it in one
way only, so joining is injective in both parts as soon as the right parts are
free of the separator. A text with one separator only can be split in no other
way at all. -/
namespace Text
open List

def hasPrefix (start text : String) : Bool := start.toList.isPrefixOf text.toList

def trimPrefix (start text : String) : String :=
  if hasPrefix start text then String.ofList (text.toList.drop start.toList.length) else text

def contains (text part : String) : Bool := part.toList <:+: text.toList

lemma split_last {α : Type} (sep : α) (a b a' b' : List α) (free : sep ∉ b) (free' : sep ∉ b')
    (same : a ++ sep :: b = a' ++ sep :: b') : a = a' ∧ b = b' := by
  rcases append_eq_append_iff.mp same with ⟨middle,left,right⟩ | ⟨middle,left,right⟩
  · cases middle with
    | nil => simp_all
    | cons first middle =>
      rw [cons_append,List.cons.injEq] at right
      have member : sep ∈ b := by rw [right.2]; simp
      exact absurd member free
  · cases middle with
    | nil => simp_all
    | cons first middle =>
      rw [cons_append,List.cons.injEq] at right
      have member : sep ∈ b' := by rw [right.2]; simp
      exact absurd member free'

lemma join_injective (sep a b a' b' : String) (c : Char) (single : sep.toList = [c])
    (free : c ∉ b.toList) (free' : c ∉ b'.toList) (same : a ++ sep ++ b = a' ++ sep ++ b') : a = a' ∧ b = b' := by
  have texts := congrArg String.toList same
  simp only [String.toList_append,single,append_assoc,singleton_append] at texts
  obtain ⟨left,right⟩ := split_last c _ _ _ _ free free' texts
  exact ⟨String.toList_inj.mp left,String.toList_inj.mp right⟩

lemma toDigits_slash (base n : Nat) (least : 1 < base) (most : base ≤ 16) : '/' ∉ Nat.toDigits base n := by
  have digit : ∀ d < 16, Nat.digitChar d ≠ '/' := by decide
  induction n using Nat.strongRecOn with
  | ind n ih =>
    rw [Nat.toDigits_eq_if least]
    split_ifs with small
    · simp [(digit n (by omega)).symm]
    · have shorter : n / base < n := Nat.div_lt_self (by omega) least
      have below : n % base < base := Nat.mod_lt _ (by omega)
      simp only [mem_append,mem_singleton,not_or]
      exact ⟨ih _ shorter,(digit _ (by omega)).symm⟩

end Text
