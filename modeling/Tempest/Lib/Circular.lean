import Mathlib.Data.List.Basic

/-! A stream that is written into a circular memory. The memory holds the last elements
of the stream, each at its position modulo the size of the memory. -/
namespace Circular
open List

variable {α : Type} {data stream part : List α} {pos k size : Nat}

def splice (data : List α) (pos : Nat) (part : List α) : List α :=
  data.take pos ++ (part ++ data.drop (pos + part.length))

lemma splice_length (fits : pos + part.length ≤ data.length) : (splice data pos part).length = data.length := by
  simp only [splice,length_append,length_take,length_drop]
  omega

variable {i n : Nat}

lemma splice_written (fits : pos ≤ data.length) (inside : i < part.length) :
    (splice data pos part)[pos + i]? = part[i]? := by
  have length : (data.take pos).length = pos := by rw [length_take]; omega
  rw [splice,getElem?_append_right (by omega),length,Nat.add_sub_cancel_left,getElem?_append_left inside]

lemma splice_kept (fits : pos + part.length ≤ data.length) (outside : i < pos ∨ pos + part.length ≤ i) :
    (splice data pos part)[i]? = data[i]? := by
  have length : (data.take pos).length = pos := by rw [length_take]; omega
  rw [splice]
  rcases outside with before | after
  · rw [getElem?_append_left (by omega),getElem?_take_of_lt before]
  · rw [getElem?_append_right (by omega),getElem?_append_right (by omega),getElem?_drop]
    congr 1
    omega

def Window (data stream : List α) : Prop :=
  ∀ j, j < stream.length → stream.length ≤ j + data.length → data[j % data.length]? = stream[j]?

lemma window_nil (data : List α) : Window data [] := by
  intro j inside
  cases inside

lemma place_eq {j q : Nat} (from_round : k * q ≤ j) (within : j < k * q + k) : j % k = j - k * q := by
  obtain ⟨i,rfl⟩ := Nat.exists_eq_add_of_le from_round
  rw [Nat.mul_add_mod,Nat.mod_eq_of_lt (by omega),Nat.add_sub_cancel_left]

lemma place_before {j : Nat} (less : j < n) (recent : n + size ≤ j + k) :
    j % k < n % k ∨ n % k + size ≤ j % k := by
  have split := Nat.div_add_mod n k
  have bound := Nat.mod_lt n (show 0 < k by omega)
  by_cases same : k * (n / k) ≤ j
  · left
    have place := place_eq same (by omega)
    omega
  · right
    -- the element is in the round before, which exists
    cases round : n / k with
    | zero => rw [round] at same; omega
    | succ q =>
      rw [round,Nat.mul_succ] at same split
      have place : j % k = j - k * q := place_eq (by omega) (by omega)
      omega

lemma place_after (fits : n % k + i < k) : (n + i) % k = n % k + i := by
  rw [Nat.add_mod,Nat.mod_eq_of_lt (Nat.lt_of_le_of_lt (Nat.le_add_left i _) fits),Nat.mod_eq_of_lt fits]

lemma place_same (near : size ≤ k) : (n + size) % k = n % k ↔ size = 0 ∨ size = k := by
  constructor
  · intro same
    have rest := Nat.sub_mod_eq_zero_of_mod_eq same
    rw [Nat.add_sub_cancel_left] at rest
    rcases Nat.lt_or_eq_of_le near with less | whole
    · exact .inl ((Nat.mod_eq_of_lt less).symm.trans rest)
    · exact .inr whole
  · rintro (rfl | rfl)
    · rfl
    · exact Nat.add_mod_right n size

lemma Window.splice (window : Window data stream) (place : pos = stream.length % data.length)
    (fits : pos + part.length ≤ data.length) : Window (splice data pos part) (stream ++ part) := by
  subst place
  intro j inside recent
  rw [splice_length fits] at recent ⊢
  rw [length_append] at inside recent
  by_cases old : j < stream.length
  · rw [splice_kept fits (place_before old recent),getElem?_append_left old]
    exact window j old (by omega)
  · obtain ⟨i,rfl⟩ := Nat.exists_eq_add_of_le (Nat.le_of_not_lt old)
    have short : i < part.length := by omega
    rw [place_after (by omega),splice_written (by omega) short,getElem?_append_right (by omega),
      Nat.add_sub_cancel_left]

lemma Window.slice (window : Window data stream) (inside : k + size ≤ stream.length)
    (recent : stream.length ≤ k + data.length) (fits : k % data.length + size ≤ data.length) :
    (data.drop (k % data.length)).take size = (stream.drop k).take size := by
  apply ext_getElem?
  intro i
  by_cases short : i < size
  · rw [getElem?_take_of_lt short,getElem?_take_of_lt short,getElem?_drop,getElem?_drop,
      ← place_after (by omega)]
    exact window (k + i) (by omega) (by omega)
  · rw [getElem?_take_eq_none (by omega),getElem?_take_eq_none (by omega)]

end Circular
