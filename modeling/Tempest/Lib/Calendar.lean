import Mathlib.Order.Basic
import Mathlib.Data.Int.Order.Basic

/-! The proleptic Gregorian calendar. Days are counted from the first of January of the
year 1, which is a Monday; months and days are counted from 1, weekdays from 0 for
Sunday. -/
namespace Calendar

def isLeap (y : Int) : Bool := y % 4 = 0 ∧ (y % 100 ≠ 0 ∨ y % 400 = 0)

def yearStart (y : Int) : Int := 365 * (y - 1) + (y - 1) / 4 - (y - 1) / 100 + (y - 1) / 400

/-- The year of a day, from cycles of 400, 100, 4 years and single years. The last day of
a cycle of 100 years or of a leap year belongs to the year before. -/
def year (d : Int) : Int :=
  let cycles := d / 146097
  let d := d % 146097
  let centuries := d / 36524 - d / 36524 / 4
  let d := d - 36524 * centuries
  let fours := d / 1461
  let d := d % 1461
  let years := d / 365 - d / 365 / 4
  400 * cycles + 100 * centuries + 4 * fours + years + 1

def monthLengths (leap : Bool) : List Int :=
  [31,if leap then 29 else 28,31,30,31,30,31,31,30,31,30,31]

def start : List Int → Nat → Int
  | _,0 => 0
  | [],_ => 0
  | length :: rest,k + 1 => length + start rest k

def locate : List Int → Int → Nat
  | [],_ => 0
  | length :: rest,n => if n < length then 0 else locate rest (n - length) + 1

def monthStart (leap : Bool) (m : Int) : Int := start (monthLengths leap) (m - 1).toNat

def month (d : Int) : Int := locate (monthLengths (isLeap (year d))) (d - yearStart (year d)) + 1

def day (d : Int) : Int := d - yearStart (year d) - monthStart (isLeap (year d)) (month d) + 1

def weekday (d : Int) : Int := (d + 1) % 7

def ofDate (y m d : Int) : Int :=
  let year := y + (m - 1) / 12
  yearStart year + monthStart (isLeap year) ((m - 1) % 12 + 1) + (d - 1)

variable (y : Int)

lemma isLeap_iff : isLeap y = true ↔ y % 4 = 0 ∧ (y % 100 ≠ 0 ∨ y % 400 = 0) := by
  simp [isLeap]

lemma yearStart_succ : yearStart (y + 1) = yearStart y + 365 + (if isLeap y then 1 else 0) := by
  have leap := isLeap_iff y
  unfold yearStart
  split_ifs with l
  · have := leap.mp l
    omega
  · have := mt leap.mpr l
    omega

lemma yearStart_cycles {a b c e : Int} (century : 0 ≤ b ∧ b ≤ 3) (four : 0 ≤ c ∧ c ≤ 24) (single : 0 ≤ e ∧ e ≤ 3) :
    yearStart (400 * a + 100 * b + 4 * c + e + 1) = 146097 * a + 36524 * b + 1461 * c + 365 * e := by
  have fours : (400 * a + 100 * b + 4 * c + e + 1 - 1) / 4 = 100 * a + 25 * b + c := by omega
  have centuries : (400 * a + 100 * b + 4 * c + e + 1 - 1) / 100 = 4 * a + b := by omega
  have cycles : (400 * a + 100 * b + 4 * c + e + 1 - 1) / 400 = a := by omega
  rw [yearStart,centuries]
  omega

variable {x z n : Int} {lengths : List Int}

private lemma centuries_of (inside : 0 ≤ x ∧ x < 146097) : ∃ b y,b = x / 36524 - x / 36524 / 4 ∧ y = x - 36524 * b ∧
    (0 ≤ b ∧ b ≤ 3) ∧ 0 ≤ y ∧ (y < 36524 ∨ y = 36524 ∧ b = 3) := by
  refine ⟨_,_,rfl,rfl,?_⟩
  omega

private lemma years_of (inside : 0 ≤ z ∧ z < 1461) : ∃ e r,e = z / 365 - z / 365 / 4 ∧ r = z - 365 * e ∧
    (0 ≤ e ∧ e ≤ 3) ∧ 0 ≤ r ∧ (r < 365 ∨ r = 365 ∧ e = 3) := by
  refine ⟨_,_,rfl,rfl,?_⟩
  omega

variable (d : Int) (leap : Bool)

lemma year_cycles : ∃ a b c e r : Int,year d = 400 * a + 100 * b + 4 * c + e + 1 ∧
    d = 146097 * a + 36524 * b + 1461 * c + 365 * e + r ∧ (0 ≤ b ∧ b ≤ 3) ∧ (0 ≤ c ∧ c ≤ 24) ∧ (0 ≤ e ∧ e ≤ 3) ∧
    0 ≤ r ∧ (r < 365 ∨ r = 365 ∧ e = 3 ∧ (c < 24 ∨ b = 3)) := by
  have first : 0 ≤ d % 146097 ∧ d % 146097 < 146097 := by omega
  obtain ⟨b,y,century,rest,three,low,high⟩ := centuries_of first
  have second : 0 ≤ y % 1461 ∧ y % 1461 < 1461 := by omega
  obtain ⟨e,r,single,last,four,least,most⟩ := years_of second
  refine ⟨d / 146097,b,y / 1461,e,r,?_,?_,three,?_,four,least,?_⟩
  · rw [year,← century,← rest,← single]
  · omega
  · omega
  · rcases most with short | ⟨long,late⟩
    · exact .inl short
    · exact .inr ⟨long,late,by omega⟩

lemma year_bounds : yearStart (year d) ≤ d ∧ d < yearStart (year d + 1) := by
  obtain ⟨a,b,c,e,r,same,whole,century,four,single,least,most⟩ := year_cycles d
  have start := yearStart_cycles (a := a) century four single
  have leap := isLeap_iff (400 * a + 100 * b + 4 * c + e + 1)
  rw [yearStart_succ,same]
  refine ⟨by omega,?_⟩
  split_ifs with l
  · omega
  · have short := mt leap.mpr l
    omega

lemma yearStart_le {y : Int} (before : y ≤ z) : yearStart y ≤ yearStart z := by
  unfold yearStart
  omega

lemma year_unique {d y : Int} (start : yearStart y ≤ d) (stop : d < yearStart (y + 1)) : year d = y := by
  obtain ⟨low,high⟩ := year_bounds d
  by_contra other
  rcases lt_or_gt_of_ne other with before | behind
  · have := yearStart_le (show year d + 1 ≤ y from before)
    omega
  · have := yearStart_le (show y + 1 ≤ year d from behind)
    omega

lemma locate_bounds (low : 0 ≤ n) (high : n < start lengths lengths.length) :
    locate lengths n < lengths.length ∧ start lengths (locate lengths n) ≤ n ∧ n < start lengths (locate lengths n + 1) := by
  induction lengths generalizing n with
  | nil => exact absurd high (not_lt.mpr low)
  | cons length rest later =>
    rw [List.length_cons,start] at high
    rw [locate]
    split_ifs with here
    · refine ⟨Nat.succ_pos _,low,?_⟩
      rw [start,start]
      omega
    · obtain ⟨inside,least,most⟩ := later (n := n - length) (by omega) (by omega)
      refine ⟨Nat.succ_lt_succ inside,?_,?_⟩
      all_goals
        rw [start]
        omega

section
variable (proper : ∀ length ∈ lengths, 0 ≤ length)
include proper

lemma start_le {k l : Nat} (less : k ≤ l) : start lengths k ≤ start lengths l := by
  induction lengths generalizing k l with
  | nil => cases k <;> cases l <;> exact le_refl _
  | cons length rest later =>
    have proper' := fun l member => proper l (List.mem_cons_of_mem _ member)
    cases l with
    | zero => rw [Nat.le_zero.mp less]
    | succ l =>
      rw [start]
      cases k with
      | zero =>
        have first := proper length List.mem_cons_self
        have behind := later proper' (Nat.zero_le l)
        rw [start] at behind ⊢
        omega
      | succ k =>
        exact Int.add_le_add_left (later proper' (Nat.le_of_succ_le_succ less)) _

lemma start_nonneg (k : Nat) : 0 ≤ start lengths k := by
  have first := start_le proper (Nat.zero_le k)
  rwa [start] at first

lemma locate_unique {k : Nat}
    (low : start lengths k ≤ n) (high : n < start lengths (k + 1)) : locate lengths n = k := by
  induction lengths generalizing n k with
  | nil =>
    have empty : start [] k = 0 := by cases k <;> rfl
    rw [empty] at low
    exact absurd high (not_lt.mpr low)
  | cons length rest later =>
    have proper' := fun l member => proper l (List.mem_cons_of_mem _ member)
    rw [start] at high
    rw [locate]
    cases k with
    | zero =>
      rw [start] at high
      exact if_pos (by omega)
    | succ k =>
      rw [start] at low
      have behind := start_nonneg proper' k
      rw [if_neg (by omega),later proper' (n := n - length) (k := k) (by omega) (by omega)]

end

lemma monthLengths_nonneg : ∀ length ∈ monthLengths leap,0 ≤ length := by
  cases leap <;> decide

lemma start_monthLengths : start (monthLengths leap) 12 = 365 + (if leap then 1 else 0) := by
  cases leap <;> rfl

lemma day_bounds : 0 ≤ d - yearStart (year d) ∧
    d - yearStart (year d) < start (monthLengths (isLeap (year d))) (monthLengths (isLeap (year d))).length := by
  obtain ⟨low,high⟩ := year_bounds d
  rw [yearStart_succ] at high
  change _ ∧ _ < start _ 12
  rw [start_monthLengths]
  omega

lemma month_bounds : 1 ≤ month d ∧ month d ≤ 12 ∧
    yearStart (year d) + monthStart (isLeap (year d)) (month d) ≤ d ∧
      d < yearStart (year d) + monthStart (isLeap (year d)) (month d + 1) := by
  obtain ⟨low,high⟩ := day_bounds d
  obtain ⟨inside,least,most⟩ := locate_bounds low high
  have twelve : (monthLengths (isLeap (year d))).length = 12 := rfl
  have this : (month d - 1).toNat = locate (monthLengths (isLeap (year d))) (d - yearStart (year d)) := by
    rw [month]
    omega
  have next : (month d + 1 - 1).toNat = locate (monthLengths (isLeap (year d))) (d - yearStart (year d)) + 1 := by
    rw [month]
    omega
  rw [monthStart,monthStart,this,next]
  refine ⟨?_,?_,by omega,by omega⟩
  all_goals
    rw [month]
    omega

lemma ofDate_nextMonth :
    ofDate (year d) (month d + 1) 1 = yearStart (year d) + monthStart (isLeap (year d)) (month d + 1) := by
  obtain ⟨first,last,_,_⟩ := month_bounds d
  unfold ofDate
  dsimp only
  rcases lt_or_eq_of_le last with earlier | december
  · have same : (month d + 1 - 1) / 12 = 0 := by omega
    have kept : (month d + 1 - 1) % 12 + 1 = month d + 1 := by omega
    rw [same,kept,Int.add_zero]
    omega
  · rw [december]
    change yearStart (year d + 1) + 0 + (1 - 1) = yearStart (year d) + start _ 12
    rw [start_monthLengths,yearStart_succ]
    omega

lemma month_until {d : Int} (later : d ≤ x) (before : x < ofDate (year d) (month d + 1) 1) : month x = month d := by
  obtain ⟨first,last,low,_⟩ := month_bounds d
  rw [ofDate_nextMonth] at before
  have begun : 0 ≤ monthStart (isLeap (year d)) (month d) := start_nonneg (monthLengths_nonneg _) _
  have ended : monthStart (isLeap (year d)) (month d + 1) ≤ start (monthLengths (isLeap (year d))) 12 :=
    start_le (monthLengths_nonneg _) (by omega)
  rw [start_monthLengths] at ended
  have same : year x = year d := by
    apply year_unique
    · omega
    · rw [yearStart_succ]
      omega
  have here : (month d + 1 - 1).toNat = (month d - 1).toNat + 1 := by omega
  rw [monthStart] at low before
  rw [here] at before
  have located : locate (monthLengths (isLeap (year d))) (x - yearStart (year d)) = (month d - 1).toNat :=
    locate_unique (monthLengths_nonneg _) (by omega) (by omega)
  rw [month,same]
  omega

lemma ofDate_same : ofDate (year d) (month d) (day d) = d := by
  obtain ⟨first,last,_,_⟩ := month_bounds d
  have same : (month d - 1) / 12 = 0 := by omega
  have kept : (month d - 1) % 12 + 1 = month d := by omega
  unfold ofDate day
  dsimp only
  rw [same,kept,Int.add_zero]
  omega

lemma ofDate_nextDay : ofDate (year d) (month d) (day d + 1) = d + 1 := by
  have same := ofDate_same d
  unfold ofDate at same ⊢
  dsimp only at same ⊢
  omega

end Calendar
