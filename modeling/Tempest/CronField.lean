import Tempest.Cron
import Mathlib.Algebra.Order.Ring.Int
import Mathlib.Tactic.Ring

/-! The values that a cron field denotes, and the bits its parser sets. The loop over a range
adds the step to a machine integer: a step near the largest one leads back below the start,
and from there on down, two rounds at a time. -/
namespace Tempest.Cron
open Deltadiff

lemma bit_and_bit : ∀ i < 64,∀ v < 64,bit (i : Nat) &&& bit (v : Nat) = 0 ↔ i ≠ v := by decide

lemma CronField.bounds_of_matches {cf : CronField} {v : Int} (matches_ : cf.matchesValue v = true) : 0 ≤ v ∧ v < 64 := by
  unfold matchesValue at matches_
  split_ifs at matches_
  omega

lemma matchesValue_or_bit (field : CronField) (i v : Int) : (field ||| bit i).matchesValue v = true ↔
    field.matchesValue v = true ∨ i = v ∧ 0 ≤ v ∧ v < 64 := by
  by_cases inside : 0 ≤ v ∧ v < 64
  · have same : bit i &&& bit v ≠ 0 ↔ i = v := by
      by_cases low : 0 ≤ i ∧ i < 64
      · have two := (bit_and_bit i.toNat (by omega) v.toNat (by omega)).not_left
        rw [Int.toNat_of_nonneg low.1,Int.toNat_of_nonneg inside.1] at two
        rw [Ne,two]
        omega
      · rw [bit,if_neg low,UInt64.zero_and]
        exact iff_of_false (fun zero => zero rfl) (fun same => low (same ▸ inside))
    have both : (field ||| bit i) &&& bit v = field &&& bit v ||| bit i &&& bit v :=
      UInt64.eq_of_toBitVec_eq BitVec.and_or_distrib_right
    simp only [CronField.matchesValue,if_neg (show ¬ (v < 0 ∨ 63 < v) by omega),decide_eq_true_eq,both,Ne,UInt64.or_eq_zero_iff,
      not_and_or,inside,and_true]
    exact or_congr_right same
  · simp only [inside,and_false,or_false]
    constructor <;> exact fun matches_ => absurd (CronField.bounds_of_matches matches_) inside

variable {start stop step i v d : Int} {n : Nat} {field : CronField}

/-- `v` is reached from `i` by steps of `d`. -/
def Reached (i d v : Int) : Prop := ∃ k : Nat,i + k * d = v

lemma reached_iff : Reached i d v ↔ i = v ∨ Reached (i + d) d v := by
  constructor
  · rintro ⟨k,rfl⟩
    rcases k with _ | k
    · exact .inl (by simp)
    · exact .inr ⟨k,by push_cast; ring⟩
  · rintro (rfl | ⟨k,rfl⟩)
    · exact ⟨0,by simp⟩
    · exact ⟨k + 1,by push_cast; ring⟩

lemma Reached.le (reached : Reached i d v) (positive : 0 ≤ d) : i ≤ v := by
  obtain ⟨k,rfl⟩ := reached
  exact le_add_of_nonneg_right (mul_nonneg (Int.natCast_nonneg k) positive)

lemma Reached.ge (reached : Reached i d v) (negative : d ≤ 0) : v ≤ i := by
  obtain ⟨k,rfl⟩ := reached
  exact add_le_of_nonpos_right (mul_nonpos_of_nonneg_of_nonpos (Int.natCast_nonneg k) negative)

/-- The loop ends after no more than this many rounds. -/
inductive Ends (stop step : Int) : Nat → Int → Prop
  | stopped {n : Nat} {i : Int} (behind : stop < i) : Ends stop step n i
  | round {n : Nat} {i : Int} (later : Ends stop step n ((i + step).bmod 18446744073709551616)) : Ends stop step (n + 1) i

lemma fill_succ : fill stop step (n + 1) i field =
    if i ≤ stop then fill stop step n ((i + step).bmod 18446744073709551616) (field ||| bit i) else field := rfl

lemma fill_behind (behind : stop < i) : fill stop step n i field = field := by
  cases n with
  | zero => rfl
  | succ n => exact if_neg (not_le.mpr behind)

lemma Ends.fill_eq (ends : Ends stop step n i) (more : Nat) (field : CronField) :
    fill stop step (n + more) i field = fill stop step n i field := by
  induction ends generalizing field with
  | stopped behind => rw [fill_behind behind,fill_behind behind]
  | @round n i _ same =>
    rw [Nat.add_right_comm,fill_succ,fill_succ]
    split_ifs
    · exact same _
    · rfl

lemma ascending (small : stop ≤ 63) (positive : 0 < step) (short : step < 9223372036854775744) (low : 0 ≤ i)
    (enough : stop - i < n) : Ends stop step n i ∧ ∀ field,(fill stop step n i field).matchesValue v = true ↔
      field.matchesValue v = true ∨ v ≤ stop ∧ Reached i step v := by
  induction n using Nat.strong_induction_on generalizing i with
  | _ n later =>
    rcases lt_or_ge stop i with behind | inside
    · refine ⟨.stopped behind,fun field => ?_⟩
      rw [fill_behind behind,or_iff_left]
      exact fun both => absurd (both.2.le positive.le) (by omega)
    · obtain ⟨n,rfl⟩ : ∃ k,n = k + 1 := ⟨n - 1,by omega⟩
      have next : (i + step).bmod 18446744073709551616 = i + step := by
        rw [Int.bmod_def]
        omega
      obtain ⟨ends,bits⟩ := later n (by omega) (by omega : 0 ≤ i + step) (by omega)
      refine ⟨.round (by rwa [next]),fun field => ?_⟩
      rw [fill_succ,if_pos inside,next,bits,matchesValue_or_bit,or_assoc,@reached_iff i,and_or_left]
      refine or_congr_right (or_congr_left ?_)
      omega

lemma descending (low : 0 ≤ stop) (small : stop ≤ 63) (long : 9223372036854775744 ≤ step) (most : step ≤ 9223372036854775807)
    (down : -64 ≤ i) (high : i ≤ stop) (enough : i + 65 ≤ n) : Ends stop step n i ∧
      ∀ field,(fill stop step n i field).matchesValue v = true ↔
        field.matchesValue v = true ∨ 0 ≤ v ∧ Reached i (2 * step - 18446744073709551616) v := by
  induction n using Nat.strong_induction_on generalizing i with
  | _ n later =>
    obtain ⟨n,rfl⟩ : ∃ k,n = k + 1 := ⟨n - 1,by omega⟩
    simp only [fill_succ,if_pos high,@reached_iff i]
    rcases lt_or_ge (i + step) 9223372036854775808 with fits | wraps
    · have next : (i + step).bmod 18446744073709551616 = i + step := by
        rw [Int.bmod_def]
        omega
      refine ⟨.round (.stopped (by omega)),fun field => ?_⟩
      rw [fill_behind (by omega),matchesValue_or_bit]
      refine or_congr_right ⟨fun here => ⟨here.2.1,.inl here.1⟩,fun ⟨positive,reached⟩ => ?_⟩
      have here := reached.resolve_right (fun later => absurd (later.ge (by omega)) (by omega))
      exact ⟨here,by omega⟩
    · obtain ⟨n,rfl⟩ : ∃ k,n = k + 1 := ⟨n - 1,by omega⟩
      have next : (i + step).bmod 18446744073709551616 = i + step - 18446744073709551616 := by
        rw [Int.bmod_def]
        omega
      have back : (i + step - 18446744073709551616 + step).bmod 18446744073709551616 =
          i + (2 * step - 18446744073709551616) := by
        rw [Int.bmod_def]
        omega
      have nothing : bit (i + step - 18446744073709551616) = 0 := if_neg (by omega)
      obtain ⟨ends,bits⟩ := later n (by omega) (by omega : -64 ≤ i + (2 * step - 18446744073709551616)) (by omega) (by omega)
      refine ⟨.round (next ▸ .round (back ▸ ends)),fun field => ?_⟩
      rw [next,fill_succ,if_pos (by omega),back,nothing,UInt64.or_zero,bits,matchesValue_or_bit,or_assoc,and_or_left]
      refine or_congr_right (or_congr_left ?_)
      omega

section Loop
variable (low : 0 ≤ start) (inside : start ≤ stop) (small : stop ≤ 63) (positive : 0 < step) (most : step ≤ 9223372036854775807)
include low inside small positive most

/-- Beside the range, the loop reaches the values that the wrapped step leads down to. -/
theorem loop_spec : Ends stop step rounds start ∧ ∀ field,(fill stop step rounds start field).matchesValue v = true ↔
    field.matchesValue v = true ∨ v ≤ stop ∧ Reached start step v ∨
      0 ≤ v ∧ Reached start (2 * step - 18446744073709551616) v := by
  rcases lt_or_ge step 9223372036854775744 with short | long
  · obtain ⟨ends,bits⟩ := ascending (n := 128) small positive short low (by omega)
    refine ⟨ends,fun field => (bits field).trans (or_congr_right ⟨.inl,Or.rec id fun wrapped => ?_⟩)⟩
    rcases reached_iff.mp wrapped.2 with rfl | later
    · exact ⟨inside,reached_iff.mpr (.inl rfl)⟩
    · exact absurd (later.ge (by omega)) (by omega)
  · obtain ⟨ends,bits⟩ := descending (n := 128) (by omega) small long most (by omega) inside (by omega)
    refine ⟨ends,fun field => (bits field).trans (or_congr_right ⟨.inr,Or.rec (fun exact_ => ?_) id⟩)⟩
    rcases reached_iff.mp exact_.2 with rfl | later
    · exact ⟨low,reached_iff.mpr (.inl rfl)⟩
    · exact absurd (later.le positive.le) (by omega)

lemma fill_rounds (more : Nat) (field : CronField) :
    fill stop step (rounds + more) start field = fill stop step rounds start field :=
  (loop_spec (v := 0) low inside small positive most).1.fill_eq more field

end Loop

variable {min max : Int} {part text : Str}

lemma stepOf_bounds (read : stepOf part = .ok (step,text)) : 0 < step ∧ step ≤ 9223372036854775807 := by
  unfold stepOf at read
  split at read
  · split at read
    · split at read
      · next found =>
        have kept := (Option.filter_eq_some_iff.mp found).2
        rw [decide_eq_true_eq] at kept
        split_ifs at read
        cases read
        omega
      · cases read
    · cases read
  · cases read
    decide

lemma boundsOf_bounds (ordered : min ≤ max) (read : boundsOf text min max = .ok (start,stop)) :
    min ≤ start ∧ start ≤ stop ∧ stop ≤ max := by
  unfold boundsOf at read
  split_ifs at read
  · cases read
    exact ⟨le_refl _,ordered,le_refl _⟩
  · split at read
    · split at read
      · split_ifs at read
        split at read
        · split_ifs at read
          cases read
          omega
        · cases read
      · cases read
    · cases read
  · split at read
    · split_ifs at read
      cases read
      omega
    · cases read

/-- Some part has a step and a range with the property. -/
def Among (parts : List Str) (min max : Int) (P : Int → Int → Int → Prop) : Prop :=
  ∃ part ∈ parts,∃ step text start stop,stepOf (trimSpace part) = .ok (step,text) ∧ boundsOf text min max = .ok (start,stop) ∧
    P step start stop

def Denoted (f : Str) (min max v : Int) : Prop :=
  Among (f.splitOn ',') min max fun step start stop => v ≤ stop ∧ Reached start step v

def Wrapped (f : Str) (min max v : Int) : Prop :=
  Among (f.splitOn ',') min max fun step start _ => 0 ≤ v ∧ Reached start (2 * step - 18446744073709551616) v

structure Denotes (field : CronField) (f : Str) (min max : Int) : Prop where
  exact_ : ∀ v,field.matchesValue v = true ↔ Denoted f min max v
  bounded : ∀ v,field.matchesValue v = true → min ≤ v ∧ v ≤ max
  inhabited : ∃ v,field.matchesValue v = true

variable {parts : List Str} {field field' : CronField}

lemma foldlM_cons_spec (read : (part :: parts).foldlM (parsePart min max) field = .ok field') :
    ∃ step text start stop,stepOf (trimSpace part) = .ok (step,text) ∧ boundsOf text min max = .ok (start,stop) ∧
      parts.foldlM (parsePart min max) (fill stop step rounds start field) = .ok field' := by
  rw [List.foldlM_cons] at read
  obtain ⟨_,parsed,rest⟩ := ok_of_bind read
  obtain ⟨⟨step,text⟩,ofStep,parsed⟩ := ok_of_bind parsed
  obtain ⟨⟨start,stop⟩,ofBounds,filled⟩ := ok_of_bind parsed
  cases filled
  exact ⟨step,text,start,stop,ofStep,ofBounds,rest⟩

lemma foldlM_matches (ordered : min ≤ max) (small : max ≤ 63) (read : parts.foldlM (parsePart min max) field = .ok field')
    (low : ∀ v,Among parts min max (fun step start stop => v ≤ stop ∧ Reached start step v) → 0 ≤ v) :
    field'.matchesValue v = true ↔ field.matchesValue v = true ∨ Among parts min max (fun step start stop =>
      v ≤ stop ∧ Reached start step v ∨ 0 ≤ v ∧ Reached start (2 * step - 18446744073709551616) v) := by
  induction parts generalizing field with
  | nil =>
    cases read
    simp [Among]
  | cons part parts later =>
    obtain ⟨step,text,start,stop,ofStep,ofBounds,rest⟩ := foldlM_cons_spec read
    obtain ⟨above,inside,below⟩ := boundsOf_bounds ordered ofBounds
    have cons : ∀ P,Among (part :: parts) min max P ↔ P step start stop ∨ Among parts min max P := by
      simp [Among,ofStep,ofBounds]
    simp only [cons] at low ⊢
    have start_ := low start (.inl ⟨inside,reached_iff.mpr (.inl rfl)⟩)
    rw [later rest (fun v among => low v (.inr among)),
      (loop_spec start_ inside (by omega) (stepOf_bounds ofStep).1 (stepOf_bounds ofStep).2).2 field,or_assoc]

/-- The bits of a field are what its text denotes, within the bounds and at least one, exactly
if nothing negative is denoted and nothing else is reached by a step that wraps. -/
theorem parseField_denotes_iff {f : Str} {min max : Int} {field : CronField} (ordered : min ≤ max) (small : max ≤ 63)
    (read : parseField f min max = .ok field) : Denotes field f min max ↔
      (∀ v,Denoted f min max v → 0 ≤ v) ∧ ∀ v,Wrapped f min max v → Denoted f min max v := by
  have matches_ : ∀ (low : ∀ v,Denoted f min max v → 0 ≤ v) v,
      field.matchesValue v = true ↔ Denoted f min max v ∨ Wrapped f min max v := by
    intro low v
    rw [foldlM_matches ordered small read low,or_iff_right]
    · simp only [Denoted,Wrapped,Among,and_or_left,exists_or]
    · simp [CronField.matchesValue]
  constructor
  · intro denotes
    have low := fun v denoted =>
      (CronField.bounds_of_matches ((denotes.exact_ v).mpr denoted)).1
    exact ⟨low,fun v wrapped => (denotes.exact_ v).mp ((matches_ low v).mpr (.inr wrapped))⟩
  · rintro ⟨low,wrapped⟩
    have exact_ : ∀ v,field.matchesValue v = true ↔ Denoted f min max v := fun v =>
      (matches_ low v).trans (or_iff_left_of_imp (wrapped v))
    refine ⟨exact_,fun v set_ => ?_,?_⟩
    · obtain ⟨part,-,step,text,start,stop,ofStep,ofBounds,most,reached⟩ := (exact_ v).mp set_
      have bounds := boundsOf_bounds ordered ofBounds
      have := reached.le (stepOf_bounds ofStep).1.le
      omega
    · unfold parseField at read
      obtain ⟨part,parts,split_⟩ := List.exists_cons_of_ne_nil (List.splitOn_ne_nil ',' f)
      rw [split_] at read
      obtain ⟨step,text,start,stop,ofStep,ofBounds,-⟩ := foldlM_cons_spec read
      have inside : part ∈ f.splitOn ',' := split_ ▸ List.mem_cons_self
      exact ⟨start,(exact_ start).mpr ⟨part,inside,step,text,start,stop,ofStep,ofBounds,(boundsOf_bounds ordered ofBounds).2.1,
        reached_iff.mpr (Or.inl rfl)⟩⟩

/-- One value and a range with a step: the values 1, 10, 15 and 20. -/
def listed : Str := ['1',',','1','0','-','2','0','/','5']

lemma among_listed (P : Int → Int → Int → Prop) : Among (listed.splitOn ',') 0 59 P ↔ P 1 1 1 ∨ P 5 10 20 := by
  have parts : listed.splitOn ',' = [['1'],['1','0','-','2','0','/','5']] := by rfl
  have one : stepOf (trimSpace ['1']) = .ok (1,['1']) ∧ boundsOf ['1'] 0 59 = .ok (1,1) := ⟨by rfl,by rfl⟩
  have range : stepOf (trimSpace ['1','0','-','2','0','/','5']) = .ok (5,['1','0','-','2','0']) ∧
      boundsOf ['1','0','-','2','0'] 0 59 = .ok (10,20) := ⟨by rfl,by rfl⟩
  simp [Among,parts,one,range]

theorem parseField_denotes_listed : parseField listed 0 59 = .ok 1082370 ∧ Denotes 1082370 listed 0 59 := by
  have read : parseField listed 0 59 = .ok 1082370 := by decide +kernel
  refine ⟨read,(parseField_denotes_iff (by decide) (by decide) read).mpr ⟨fun v denoted => ?_,fun v wrapped => ?_⟩⟩
  · rcases (among_listed _).mp denoted with ⟨-,reached⟩ | ⟨-,reached⟩
    all_goals
      have := reached.le (by decide)
      omega
  · apply (among_listed _).mpr
    rcases (among_listed _).mp wrapped with ⟨low,k,rfl⟩ | ⟨low,k,rfl⟩
    · exact .inl ⟨by omega,0,by omega⟩
    · exact .inr ⟨by omega,0,by omega⟩

def longStep : Str := ['9','/','9','2','2','3','3','7','2','0','3','6','8','5','4','7','7','5','8','0','7']

/-- The value 9 with the longest step becomes the set of 1, 3, 5, 7 and 9. -/
theorem parseField_longStep : parseField longStep 0 59 = .ok 682 ∧ ¬ Denotes 682 longStep 0 59 := by
  refine ⟨by decide +kernel,fun denotes => ?_⟩
  obtain ⟨part,member,step,text,start,stop,ofStep,ofBounds,-,reached⟩ := (denotes.exact_ 7).mp (by decide)
  have only : longStep.splitOn ',' = [longStep] := by rfl
  rw [only,List.mem_singleton] at member
  cases member
  cases (by rfl : stepOf (trimSpace longStep) = .ok (9223372036854775807,['9'])).symm.trans ofStep
  cases (by rfl : boundsOf ['9'] 0 59 = .ok (9,9)).symm.trans ofBounds
  exact absurd (reached.le (by decide)) (by decide)

end Tempest.Cron
