import Tempest.Cron

/-! What `Next` finds. Each round of the search passes over minutes that cannot match, so
the search ends at the first match or at its limit, five years later. -/
namespace Tempest.Cron
open Calendar

def Expression.accepts (e : Expression) (t : Int) : Bool :=
  e.months.matchesValue (month t) && e.dom.matchesValue (day t) && e.dow.matchesValue (weekday t) &&
    e.hours.matchesValue (hour t) && e.minutes.matchesValue (minute t)

variable {e : Expression} {t x : Int}

lemma accepts_iff : e.accepts t = true ↔
    e.months.matchesValue (month t) = true ∧ e.dom.matchesValue (day t) = true ∧ e.dow.matchesValue (weekday t) = true ∧
      e.hours.matchesValue (hour t) = true ∧ e.minutes.matchesValue (minute t) = true := by
  simp only [Expression.accepts,Bool.and_eq_true,and_assoc]

lemma month_kept (later : t ≤ x) (before : x < date (year t) (month t + 1) 1 0 0) : month x = month t := by
  apply month_until
  · exact Int.ediv_le_ediv (by decide) later
  · rw [date,year,month] at before
    omega

lemma nextMonth_later (t : Int) : t < date (year t) (month t + 1) 1 0 0 := by
  obtain ⟨_,_,_,high⟩ := month_bounds (t / 1440)
  rw [date,year,month,ofDate_nextMonth]
  omega

lemma date_nextDay (t : Int) : date (year t) (month t) (day t + 1) 0 0 = (t / 1440 + 1) * 1440 := by
  rw [date,year,month,day,ofDate_nextDay]
  omega

lemma date_nextHour (t : Int) :
    date (year t) (month t) (day t) (hour t + 1) 0 = t / 1440 * 1440 + (t % 1440 / 60 + 1) * 60 := by
  rw [date,year,month,day,ofDate_same,hour]
  omega

/-- The result of a search from a minute on: the first match before the limit or, if there
is none, the zero time. -/
inductive Found (e : Expression) (limit t : Int) : Int → Prop
  | earliest {m : Int} (later : t ≤ m) (before : m < limit) (accepted : e.accepts m = true)
      (first : ∀ x, t ≤ x → x < m → e.accepts x = false) : Found e limit t m
  | never (none_ : ∀ x, t ≤ x → x < limit → e.accepts x = false) : Found e limit t 0

lemma Found.skip {limit t' r : Int} (later : t ≤ t') (passed : ∀ x,t ≤ x → x < t' → e.accepts x = false)
    (found : Found e limit t' r) : Found e limit t r := by
  cases found with
  | earliest after before accepted first =>
    refine .earliest (le_trans later after) before accepted ?_
    intro x reached short
    rcases lt_or_ge x t' with skipped | searched
    · exact passed x reached skipped
    · exact first x searched short
  | never none_ =>
    refine .never ?_
    intro x reached short
    rcases lt_or_ge x t' with skipped | searched
    · exact passed x reached skipped
    · exact none_ x searched short

lemma nextFrom_found (e : Expression) (limit : Int) {fuel : Nat} {t : Int} (enough : limit - t ≤ fuel) :
    Found e limit t (nextFrom e limit fuel t) := by
  induction fuel generalizing t with
  | zero =>
    refine .never ?_
    intro x reached short
    omega
  | succ fuel later =>
    rw [nextFrom]
    split_ifs with within months days hours minutes
    · have further := nextMonth_later t
      refine Found.skip (le_of_lt further) (fun x reached short => ?_) (later (by omega))
      rw [Bool.eq_false_iff]
      intro accepted
      obtain ⟨month,_⟩ := accepts_iff.mp accepted
      rw [month_kept reached short] at month
      simp [month] at months
    · rw [date_nextDay]
      refine Found.skip (by omega) (fun x reached short => ?_) (later (by omega))
      rw [Bool.eq_false_iff]
      intro accepted
      obtain ⟨_,dom,dow,_⟩ := accepts_iff.mp accepted
      have same : x / 1440 = t / 1440 := by omega
      rw [day,same] at dom
      rw [weekday,same] at dow
      simp [day,dom,weekday,dow] at days
    · rw [date_nextHour]
      refine Found.skip (by omega) (fun x reached short => ?_) (later (by omega))
      rw [Bool.eq_false_iff]
      intro accepted
      obtain ⟨_,_,_,hr,_⟩ := accepts_iff.mp accepted
      have same : hour x = hour t := by
        rw [hour,hour]
        omega
      rw [same] at hr
      simp [hr] at hours
    · refine Found.skip (by omega) (fun x reached short => ?_) (later (by omega))
      rw [Bool.eq_false_iff]
      intro accepted
      obtain ⟨_,_,_,_,min⟩ := accepts_iff.mp accepted
      have same : x = t := by omega
      rw [same] at min
      simp [min] at minutes
    · refine .earliest (le_refl t) within ?_ ?_
      · rw [accepts_iff]
        simp_all
      · intro x reached short
        omega
    · refine .never ?_
      intro x reached short
      omega

lemma after_iff {after m : Int} : after < m * minuteLength ↔ following after ≤ m := by
  rw [following,minuteLength]
  omega

/-- The first minute after an instant that the expression accepts. -/
structure Earliest (e : Expression) (after : Time) (m : Int) : Prop where
  later : after < m * minuteLength
  accepted : e.accepts m = true
  first : ∀ x, after < x * minuteLength → e.accepts x = true → m ≤ x

def Never (e : Expression) (after : Time) : Prop := ∀ x, after < x * minuteLength → e.accepts x = false

def Correct (e : Expression) (after : Time) : Prop :=
  (∃ m, Earliest e after m ∧ next e after = m * minuteLength ∧ next e after ≠ 0) ∨ (Never e after ∧ next e after = 0)

def Soon (e : Expression) (after : Time) : Prop :=
  (∃ x, after < x * minuteLength ∧ x < limit (following after) ∧ e.accepts x = true) ∧ ¬Earliest e after 0

lemma next_found (e : Expression) (after : Time) :
    ∃ r,Found e (limit (following after)) (following after) r ∧ next e after = r * minuteLength :=
  ⟨_,nextFrom_found e _ (Int.self_le_toNat _),rfl⟩

lemma Earliest.unique {after : Time} {m n : Int} (first : Earliest e after m) (second : Earliest e after n) : m = n :=
  le_antisymm (first.first n second.later second.accepted) (second.first m first.later first.accepted)

lemma Earliest.not_never {after : Time} {m : Int} (earliest : Earliest e after m) : ¬Never e after := by
  intro never
  have refused := never m earliest.later
  rw [earliest.accepted] at refused
  cases refused

/-- `Next` is correct exactly if a minute of the next five years is accepted or none at all. -/
theorem next_correct_iff (e : Expression) (after : Time) : Correct e after ↔ Soon e after ∨ Never e after := by
  obtain ⟨r,found,result⟩ := next_found e after
  rw [Correct,result]
  cases found with
  | earliest later before accepted first =>
    have earliest : Earliest e after r := by
      refine ⟨after_iff.mpr later,accepted,?_⟩
      intro x behind match_
      by_contra less
      rw [first x (after_iff.mp behind) (by omega)] at match_
      cases match_
    constructor
    · rintro (⟨m,found,same,nonzero⟩ | ⟨never,_⟩)
      · refine .inl ⟨⟨r,earliest.later,before,accepted⟩,?_⟩
        intro zero
        rw [earliest.unique zero] at nonzero
        exact nonzero (Int.zero_mul _)
      · exact absurd never earliest.not_never
    · rintro (⟨_,other⟩ | never)
      · refine .inl ⟨r,earliest,rfl,?_⟩
        intro zero
        rcases Int.mul_eq_zero.mp zero with here | length
        · rw [here] at earliest
          exact other earliest
        · cases length
      · exact absurd never earliest.not_never
  | never none_ =>
    constructor
    · rintro (⟨_,_,_,nonzero⟩ | ⟨never,_⟩)
      · exact absurd rfl nonzero
      · exact .inr never
    · rintro (⟨⟨x,behind,before,accepted⟩,_⟩ | never)
      · rw [none_ x (after_iff.mp behind) before] at accepted
        cases accepted
      · exact .inr ⟨never,rfl⟩

/-- Midnight of a first of January that is a Monday: it was so in 2018, and is again in 2024. -/
theorem next_gives_up : ∃ e, parseExpression ['0',' ','0',' ','1',' ','1',' ','1'] = .ok e ∧
    next e (date 2018 1 1 0 0 * minuteLength) = 0 ∧ e.accepts (date 2024 1 1 0 0) = true ∧
      ¬Correct e (date 2018 1 1 0 0 * minuteLength) := by
  have zero : next ⟨1,1,2,2,2⟩ (date 2018 1 1 0 0 * minuteLength) = 0 := by decide +kernel
  have accepted : Expression.accepts ⟨1,1,2,2,2⟩ (date 2024 1 1 0 0) = true := by decide +kernel
  refine ⟨⟨1,1,2,2,2⟩,by decide +kernel,zero,accepted,?_⟩
  rintro (⟨_,_,_,nonzero⟩ | ⟨never,_⟩)
  · exact nonzero zero
  · have refused := never (date 2024 1 1 0 0) (by decide +kernel)
    cases refused

end Tempest.Cron
