import Tempest.Lib.BigEndian

/-! Reading from a sequence of bytes: single bytes, numbers of a fixed width, which must be
there as a whole, and buffers, for which a reader takes what there is and leaves the rest
of the buffer zero. -/
namespace ByteReader
open List

def readByte : List UInt8 → Option (UInt8 × List UInt8)
  | [] => none
  | b :: data => some (b,data)

def readUint (width : Nat) (data : List UInt8) : Option (Nat × List UInt8) :=
  if data.length < width then none else some (BigEndian.value (data.take width),data.drop width)

def read (n : Nat) (data : List UInt8) : Option (List UInt8 × List UInt8) :=
  if data = [] then none else some (data.take n ++ List.replicate (n - data.length) 0,data.drop n)

lemma readUint_bytes (width n : Nat) (data : List UInt8) :
    readUint width (BigEndian.bytes width n ++ data) = some (n % 256 ^ width,data) := by
  have length := BigEndian.bytes_length width n
  rw [readUint,if_neg (by rw [length_append]; omega),take_left' length,drop_left' length,
    BigEndian.value_bytes]

variable {width n : Nat} {data t : List UInt8}

lemma readUint_fits (fits : n < 256 ^ width) (data : List UInt8) :
    readUint width (BigEndian.bytes width n ++ data) = some (n,data) := by
  rw [readUint_bytes,Nat.mod_eq_of_lt fits]

lemma readUint_short (short : data.length < width) : readUint width data = none := if_pos short

lemma read_enough (some : data ≠ []) (enough : n ≤ data.length) :
    read n data = Option.some (data.take n,data.drop n) := by
  rw [read,if_neg some,Nat.sub_eq_zero_of_le enough,replicate_zero,append_nil]

lemma read_short (some : data ≠ []) (short : data.length ≤ n) :
    read n data = Option.some (data ++ List.replicate (n - data.length) 0,[]) := by
  rw [read,if_neg some,take_of_length_le short,drop_of_length_le short]

lemma start_append {a b : List UInt8} (start : t <+: a ++ b) : t <+: a ∨ ∃ u,u ≠ [] ∧ t = a ++ u ∧ u <+: b := by
  obtain ⟨tail,same⟩ := start
  obtain ⟨u,rfl,-⟩ | ⟨u,rfl,rest⟩ := append_eq_append_iff.mp same
  · exact .inl ⟨u,rfl⟩
  · cases u with
    | nil => exact .inl ⟨[],by simp⟩
    | cons c u => exact .inr ⟨c :: u,cons_ne_nil c u,rfl,tail,rest.symm⟩

def Cut (t data : List UInt8) : Prop := t <+: data ∧ t ≠ data

lemma Cut.length (cut : Cut t data) : t.length < data.length := by
  have bound := cut.1.length_le
  by_contra long
  exact cut.2 (cut.1.eq_of_length (by omega))

lemma Cut.append {a b : List UInt8} (cut : Cut t (a ++ b)) : t <+: a ∨ ∃ u,u ≠ [] ∧ t = a ++ u ∧ Cut u b := by
  obtain inside | ⟨u,some,rfl,start⟩ := start_append cut.1
  · exact .inl inside
  · exact .inr ⟨u,some,rfl,start,fun same => cut.2 (by rw [same])⟩

lemma Cut.append_or {a b : List UInt8} (cut : Cut t (a ++ b)) : Cut t a ∨ ∃ u,t = a ++ u ∧ Cut u b := by
  obtain start | ⟨u,-,same,inside⟩ := cut.append
  · by_cases whole : t = a
    · refine .inr ⟨[],by rw [whole,append_nil], nil_prefix,?_⟩
      rintro rfl
      exact cut.2 (by rw [whole,append_nil])
    · exact .inl ⟨start,whole⟩
  · exact .inr ⟨u,same,inside⟩

def Ends {α : Type} (result : Option (α × List UInt8)) : Prop := result = none ∨ ∃ a,result = some (a,[])

lemma readUint_start (start : t <+: BigEndian.bytes width n) : Ends (readUint width t) := by
  have length := start.length_le
  rw [BigEndian.bytes_length] at length
  by_cases short : t.length < width
  · exact .inl (readUint_short short)
  · exact .inr ⟨_,by rw [readUint,if_neg short,drop_of_length_le length]⟩

lemma read_start (short : t.length ≤ n) : Ends (read n t) := by
  by_cases none : t = []
  · exact .inl (if_pos none)
  · exact .inr ⟨_,read_short none short⟩

end ByteReader
