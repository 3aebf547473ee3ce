import Tempest.CronNext

/-! `Next` in any location. A location is its offset from UTC, in seconds, as a function of
the instant; instants of the search are counted in seconds from the zero time. `time.Date`
looks the offset up at the wanted local time taken as UTC, and a second time at what that
gives. In a gap of the local time it may lead back, and the search need not end: it has a bound
on its rounds here and no result if it reaches it. -/
namespace Tempest.Cron
open Calendar

structure Location where
  offset : Int → Int

namespace Location

def utc : Location := ⟨fun _ => 0⟩

def civil (loc : Location) (t : Int) : Int := (t + loc.offset t) / 60

def ofCivil (loc : Location) (x : Int) : Int := if loc.offset x = 0 then x else x - loc.offset (x - loc.offset x)

def date (loc : Location) (year month day hour minute : Int) : Int := loc.ofCivil (Cron.date year month day hour minute * 60)

def nextMonth (loc : Location) (t : Int) : Int := loc.date (year (loc.civil t)) (month (loc.civil t) + 1) 1 0 0

def nextDay (loc : Location) (t : Int) : Int :=
  loc.date (year (loc.civil t)) (month (loc.civil t)) (day (loc.civil t) + 1) 0 0

def nextHour (loc : Location) (t : Int) : Int :=
  loc.date (year (loc.civil t)) (month (loc.civil t)) (day (loc.civil t)) (hour (loc.civil t) + 1) 0

def limit (loc : Location) (t : Int) : Int :=
  loc.ofCivil (Cron.date (year (loc.civil t) + 5) (month (loc.civil t)) (day (loc.civil t)) (hour (loc.civil t))
    (minute (loc.civil t)) * 60 + (t + loc.offset t) % 60)

end Location

def searchIn (e : Expression) (loc : Location) (limit : Int) : Nat → Int → Option Int
  | 0,_ => none
  | fuel + 1,t =>
    if t < limit then
      if !e.months.matchesValue (month (loc.civil t)) then searchIn e loc limit fuel (loc.nextMonth t)
      else if !e.dom.matchesValue (day (loc.civil t)) || !e.dow.matchesValue (weekday (loc.civil t)) then
        searchIn e loc limit fuel (loc.nextDay t)
      else if !e.hours.matchesValue (hour (loc.civil t)) then searchIn e loc limit fuel (loc.nextHour t)
      else if !e.minutes.matchesValue (minute (loc.civil t)) then searchIn e loc limit fuel (t + 60)
      else some t
    else some 0

def start (after : Time) : Int := following after * 60

def secondLength : Int := 1000000000

def nextIn (e : Expression) (loc : Location) (fuel : Nat) (after : Time) : Option Time :=
  (searchIn e loc (loc.limit (start after)) fuel (start after)).map (· * secondLength)

variable {e : Expression} {loc : Location} {lim t r : Int} {fuel : Nat}

/-- From an instant, the calendar leads on: the next month, day or hour begins later or, in a
gap of the local time, in the same month, day or hour. -/
structure Onward (loc : Location) (t : Int) : Prop where
  month : t < loc.nextMonth t ∨ loc.nextMonth t ≤ t ∧
    year (loc.civil (loc.nextMonth t)) = year (loc.civil t) ∧ Cron.month (loc.civil (loc.nextMonth t)) = Cron.month (loc.civil t)
  day : t < loc.nextDay t ∨ loc.nextDay t ≤ t ∧ loc.civil (loc.nextDay t) / 1440 = loc.civil t / 1440
  hour : t < loc.nextHour t ∨ loc.nextHour t ≤ t ∧ loc.civil (loc.nextHour t) / 60 = loc.civil t / 60

lemma same_day {c c' : Int} (same : c' / 1440 = c / 1440) :
    year c' = year c ∧ month c' = month c ∧ day c' = day c ∧ weekday c' = weekday c := by
  rw [year,month,day,weekday,same]
  exact ⟨rfl,rfl,rfl,rfl⟩

lemma same_hour {c c' : Int} (same : c' / 60 = c / 60) : c' / 1440 = c / 1440 ∧ hour c' = hour c := by
  rw [hour,hour]
  omega

lemma searchIn_loops (again : ∀ fuel,searchIn e loc lim (fuel + 1) t = searchIn e loc lim fuel t) (fuel : Nat) :
    searchIn e loc lim fuel t = none := by
  induction fuel with
  | zero => rfl
  | succ fuel ih => rw [again,ih]

variable {u after : Int}

lemma searchIn_stuck_month (within : u < lim) (mismatch : e.months.matchesValue (month (loc.civil t)) = false)
    (here : u = loc.nextMonth t) (sameYear : year (loc.civil u) = year (loc.civil t))
    (sameMonth : month (loc.civil u) = month (loc.civil t)) (fuel : Nat) : searchIn e loc lim fuel u = none := by
  refine searchIn_loops (fun fuel => ?_) fuel
  have again : loc.nextMonth u = u := by rw [Location.nextMonth,sameYear,sameMonth,here,Location.nextMonth]
  rw [searchIn,if_pos within,sameMonth,mismatch,again]
  rfl

lemma searchIn_stuck_day (within : u < lim) (months : e.months.matchesValue (month (loc.civil t)) = true)
    (mismatch : (!e.dom.matchesValue (day (loc.civil t)) || !e.dow.matchesValue (weekday (loc.civil t))) = true)
    (here : u = loc.nextDay t) (same : loc.civil u / 1440 = loc.civil t / 1440) (fuel : Nat) :
    searchIn e loc lim fuel u = none := by
  obtain ⟨sameYear,sameMonth,sameDay,sameWeekday⟩ := same_day same
  refine searchIn_loops (fun fuel => ?_) fuel
  have again : loc.nextDay u = u := by rw [Location.nextDay,sameYear,sameMonth,sameDay,here,Location.nextDay]
  rw [searchIn,if_pos within,sameMonth,months,sameDay,sameWeekday,mismatch,again]
  rfl

lemma searchIn_stuck_hour (within : u < lim) (months : e.months.matchesValue (month (loc.civil t)) = true)
    (days : (!e.dom.matchesValue (day (loc.civil t)) || !e.dow.matchesValue (weekday (loc.civil t))) = false)
    (mismatch : e.hours.matchesValue (hour (loc.civil t)) = false)
    (here : u = loc.nextHour t) (same : loc.civil u / 60 = loc.civil t / 60) (fuel : Nat) :
    searchIn e loc lim fuel u = none := by
  obtain ⟨sameDate,sameHour⟩ := same_hour same
  obtain ⟨sameYear,sameMonth,sameDay,sameWeekday⟩ := same_day sameDate
  refine searchIn_loops (fun fuel => ?_) fuel
  have again : loc.nextHour u = u := by rw [Location.nextHour,sameYear,sameMonth,sameDay,sameHour,here,Location.nextHour]
  rw [searchIn,if_pos within,sameMonth,months,sameDay,sameWeekday,days,sameHour,mismatch,again]
  rfl

/-- The steps of the search from an instant do not pass over a later one. -/
structure Before (loc : Location) (t x : Int) : Prop where
  month : Cron.month (loc.civil t) ≠ Cron.month (loc.civil x) → loc.nextMonth t ≤ x
  day : loc.civil t / 1440 ≠ loc.civil x / 1440 → loc.nextDay t ≤ x
  hour : loc.civil t / 60 ≠ loc.civil x / 60 → loc.nextHour t ≤ x

lemma searchIn_finds {from_ x : Int} (onward : ∀ u,from_ ≤ u → u < lim → Onward loc u)
    (whole : ∀ y,x ≤ y → y < x + 60 → e.accepts (loc.civil y) = true) (within : x + 60 ≤ lim)
    (before : ∀ u,from_ ≤ u → u < x → Before loc u x) (begun : from_ ≤ t) (short : t < x + 60)
    (found : searchIn e loc lim fuel t = some r) : t ≤ r ∧ e.accepts (loc.civil r) = true := by
  obtain ⟨xMonth,xDom,xDow,xHour,xMinute⟩ := accepts_iff.mp (whole x le_rfl (by omega))
  induction fuel generalizing t with
  | zero => cases found
  | succ fuel ih =>
    have ahead (refused : ¬e.accepts (loc.civil t) = true) : t < x := by
      by_contra reached
      exact refused (whole t (not_lt.mp reached) short)
    have inside := lt_of_lt_of_le short within
    rw [searchIn,if_pos inside] at found
    split_ifs at found with months days hours minutes
    · have mismatch : e.months.matchesValue (month (loc.civil t)) = false := by simpa using months
      have earlier := ahead (fun accepted => by simp [(accepts_iff.mp accepted).1] at months)
      obtain later | ⟨back,sameYear,sameMonth⟩ := (onward t begun inside).month
      · have reach := (before t begun earlier).month (fun same => by simp [same,xMonth] at months)
        obtain ⟨after,accepted⟩ := ih (begun.trans later.le) (by omega) found
        exact ⟨later.le.trans after,accepted⟩
      · rw [searchIn_stuck_month (lt_of_le_of_lt back inside) mismatch rfl sameYear sameMonth] at found
        cases found
    · have matched : e.months.matchesValue (month (loc.civil t)) = true := by simpa using months
      have earlier := ahead (fun accepted => by simp [(accepts_iff.mp accepted).2.1,(accepts_iff.mp accepted).2.2.1] at days)
      obtain later | ⟨back,same⟩ := (onward t begun inside).day
      · have reach : loc.nextDay t ≤ x := by
          refine (before t begun earlier).day (fun same => ?_)
          obtain ⟨-,-,sameDay,sameWeekday⟩ := same_day same
          simp [sameDay,sameWeekday,xDom,xDow] at days
        obtain ⟨after,accepted⟩ := ih (begun.trans later.le) (by omega) found
        exact ⟨later.le.trans after,accepted⟩
      · rw [searchIn_stuck_day (lt_of_le_of_lt back inside) matched days rfl same] at found
        cases found
    · have matched : e.months.matchesValue (month (loc.civil t)) = true := by simpa using months
      have mismatch : e.hours.matchesValue (hour (loc.civil t)) = false := by simpa using hours
      have earlier := ahead (fun accepted => by simp [(accepts_iff.mp accepted).2.2.2.1] at hours)
      obtain later | ⟨back,same⟩ := (onward t begun inside).hour
      · have reach :=
          (before t begun earlier).hour (fun same => by simp [(same_hour same).2,xHour] at hours)
        obtain ⟨after,accepted⟩ := ih (begun.trans later.le) (by omega) found
        exact ⟨later.le.trans after,accepted⟩
      · rw [searchIn_stuck_hour (lt_of_le_of_lt back inside) matched (by simpa using days) mismatch rfl same] at found
        cases found
    · have earlier := ahead (fun accepted => by simp [(accepts_iff.mp accepted).2.2.2.2] at minutes)
      obtain ⟨after,accepted⟩ := ih (by omega) (by omega) found
      exact ⟨by omega,accepted⟩
    · cases found
      refine ⟨le_rfl,accepts_iff.mpr ?_⟩
      simp_all

/-- In the location the search after an instant leads on, and in the five years that it covers
there is a whole minute of matches that its steps do not pass over. -/
structure Findable (e : Expression) (loc : Location) (after : Time) : Prop where
  onward : ∀ t,start after ≤ t → t < loc.limit (start after) → Onward loc t
  ahead : ∃ x,start after ≤ x ∧ x + 60 ≤ loc.limit (start after) ∧
    (∀ y,x ≤ y → y < x + 60 → e.accepts (loc.civil y) = true) ∧ ∀ t,start after ≤ t → t < x → Before loc t x

def Expression.matchesAt (e : Expression) (loc : Location) (time : Time) : Bool := e.accepts (loc.civil (time / secondLength))

lemma start_later {r : Int} (later : start after ≤ r) : after < r * secondLength := by
  rw [start,following,minuteLength] at later
  rw [secondLength]
  omega

lemma nextIn_later {after result : Time} (findable : Findable e loc after) (found : nextIn e loc fuel after = some result) :
    after < result ∧ e.matchesAt loc result = true := by
  obtain ⟨x,begun,within,whole,before⟩ := findable.ahead
  obtain ⟨r,search,rfl⟩ := Option.map_eq_some_iff.mp found
  obtain ⟨later,accepted⟩ := searchIn_finds findable.onward whole within before le_rfl (by omega) search
  have whole_ : r * secondLength / secondLength = r := Int.mul_ediv_cancel r (by decide)
  exact ⟨start_later later,by rw [Expression.matchesAt,whole_]; exact accepted⟩

section Utc

lemma civil_utc (t : Int) : Location.utc.civil t = t / 60 := by rw [Location.civil,Location.utc,Int.add_zero]

lemma date_utc (y m d h mi : Int) : Location.utc.date y m d h mi = date y m d h mi * 60 := by
  rw [Location.date]
  exact if_pos rfl

lemma limit_utc (t : Int) : Location.utc.limit (t * 60) = limit t * 60 := by
  have minutes : Location.utc.civil (t * 60) = t := by
    rw [civil_utc]
    omega
  have seconds : (t * 60 + Location.utc.offset (t * 60)) % 60 = 0 := by
    rw [Location.utc]
    dsimp only
    omega
  rw [Location.limit,minutes,seconds,Int.add_zero]
  exact if_pos rfl

lemma onward_utc (t : Int) : Onward .utc t := by
  refine ⟨.inl ?_,.inl ?_,.inl ?_⟩
  · have later := nextMonth_later (t / 60)
    rw [Location.nextMonth,civil_utc,date_utc]
    omega
  · rw [Location.nextDay,civil_utc,date_utc,date_nextDay]
    omega
  · rw [Location.nextHour,civil_utc,date_utc,date_nextHour]
    omega

lemma before_utc {t x : Int} (earlier : t < x) : Before .utc t x := by
  refine ⟨fun other => ?_,fun other => ?_,fun other => ?_⟩
  · rw [civil_utc,civil_utc] at other
    rw [Location.nextMonth,civil_utc,date_utc]
    by_contra passed
    exact other (month_kept (by omega) (by omega)).symm
  · rw [civil_utc,civil_utc] at other
    rw [Location.nextDay,civil_utc,date_utc,date_nextDay]
    omega
  · rw [civil_utc,civil_utc] at other
    rw [Location.nextHour,civil_utc,date_utc,date_nextHour]
    omega

lemma findable_utc {x : Int} (later : after < x * minuteLength) (within : x < limit (following after))
    (accepted : e.accepts x = true) : Findable e .utc after := by
  refine ⟨fun t _ _ => onward_utc t,x * 60,?_,?_,fun y low high => ?_,fun t _ earlier => before_utc earlier⟩
  · have := after_iff.mp later
    rw [start]
    omega
  · rw [start,limit_utc]
    omega
  · have same : y / 60 = x := by omega
    rw [civil_utc,same]
    exact accepted

lemma searchIn_utc (enough : lim - t ≤ fuel) :
    searchIn e .utc (lim * 60) (fuel + 1) (t * 60) = some (nextFrom e lim fuel t * 60) := by
  have minutes : Location.utc.civil (t * 60) = t := by
    rw [civil_utc]
    omega
  induction fuel generalizing t with
  | zero =>
    rw [searchIn,if_neg (by omega)]
    rfl
  | succ fuel ih =>
    have skip t' (later : t < t') :
        searchIn e .utc (lim * 60) (fuel + 1) (t' * 60) = some (nextFrom e lim fuel t' * 60) := by
      refine ih (by omega) ?_
      rw [civil_utc]
      omega
    rw [searchIn,nextFrom,minutes]
    by_cases within : t < lim
    · rw [if_pos (by omega)]
      split_ifs
      · rw [Location.nextMonth,minutes]
        exact skip _ (nextMonth_later t)
      · rw [Location.nextDay,minutes]
        exact skip _ (by rw [date_nextDay]; omega)
      · rw [Location.nextHour,minutes]
        exact skip _ (by rw [date_nextHour]; omega)
      · have minute_ : t * 60 + 60 = (t + 1) * 60 := by omega
        rw [minute_]
        exact skip _ (by omega)
      · rfl
    · rw [if_neg within,if_neg (by omega)]
      rfl

lemma nextIn_utc (e : Expression) (after : Time) :
    nextIn e .utc ((limit (following after) - following after).toNat + 1) after = some (next e after) := by
  rw [nextIn,start,limit_utc,searchIn_utc (Int.self_le_toNat _),Option.map_some,Int.mul_assoc]
  rfl

end Utc

end Tempest.Cron
