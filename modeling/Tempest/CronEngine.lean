import Tempest.CronZone
import Tempest.Lib.Interaction

/-! The engine of `internal/cronengine`: its schedules, the queue by their next times, and the
loop. A schedule is a record with an address, which stays when its id is removed or registered
anew; it is in the queue or not. The queue is a heap, whose first entry is one with the least
next time. The log has the dispatches of the loop, the latest first. -/
open List
namespace Tempest.Cron
open Deltadiff Interaction

structure Schedule where
  expr : Expression
  location : Location
  nextRun : Time
  lastRun : Time
  isPaused : Bool
  queued : Bool

/-- A dispatch of the loop: the schedule, the scheduled time and the time of the clock. -/
structure Firing where
  schedule : Nat
  time : Time
  now : Time
  deriving DecidableEq

structure Engine where
  clockSkewAllowance : Int
  schedules : String → Option Nat
  records : List Schedule
  log : List Firing

/-- The calls and the iterations of the loop, with the time of the clock where it is read and a
bound on the rounds of the search for the next time. -/
inductive Choice
  | add (now : Time) (id : String) (cronExpr : Str) (loc : Location) (fuel : Nat)
  | remove (id : String)
  | pause (id : String)
  | resume (now : Time) (id : String) (fuel : Nat)
  | iterate (now : Time) (first fuel : Nat)

namespace Engine

def new (clockSkewAllowance : Int) : Engine := ⟨clockSkewAllowance,fun _ => none,[],[]⟩

def find (en : Engine) (id : String) : Option (Nat × Schedule) :=
  (en.schedules id).bind (fun a => (en.records[a]?).map (fun s => (a,s)))

def put (en : Engine) (a : Nat) (s : Schedule) : Engine := { en with records := en.records.set a s }

def Due (en : Engine) (now : Time) (s : Schedule) : Prop :=
  s.queued = true ∧ (∀ other ∈ en.records,other.queued = true → s.nextRun ≤ other.nextRun) ∧
    s.nextRun ≤ now + en.clockSkewAllowance

instance (en : Engine) (now : Time) (s : Schedule) : Decidable (en.Due now s) :=
  inferInstanceAs (Decidable (_ ∧ (∀ other ∈ en.records,_ → _) ∧ _))

def step (en : Engine) : Choice → Engine
  | .add now id cronExpr loc fuel =>
    match parseExpression cronExpr with
    | .error _ => en
    | .ok expr =>
      if (en.schedules id).isSome then en
      else
        match nextIn expr loc fuel now with
        | none => en
        | some nextRun =>
          { en with
            schedules := Function.update en.schedules id (some en.records.length)
            records := en.records ++ [⟨expr,loc,nextRun,0,false,true⟩] }
  | .remove id =>
    match en.find id with
    | none => en
    | some (a,s) => { en.put a { s with queued := false } with schedules := Function.update en.schedules id none }
  | .pause id =>
    match en.find id with
    | none => en
    | some (a,s) => en.put a { s with isPaused := true }
  | .resume now id fuel =>
    match en.find id with
    | none => en
    | some (a,s) =>
      if !s.isPaused then en
      else
        match nextIn s.expr s.location fuel now with
        | none => en
        | some nextRun => en.put a { s with isPaused := false,nextRun := nextRun,queued := true }
  | .iterate now first fuel =>
    match en.records[first]? with
    | none => en
    | some s =>
      if en.Due now s then
        match nextIn s.expr s.location fuel s.nextRun with
        | none => en
        | some nextRun =>
          { en.put first { s with lastRun := s.nextRun,nextRun := nextRun,queued := !s.isPaused } with
            log := ⟨first,s.nextRun,now⟩ :: en.log }
      else en

def Fired (en : Engine) : Prop :=
  (∀ f ∈ en.log,f.time ≤ f.now + en.clockSkewAllowance ∧
      ∃ s,en.records[f.schedule]? = some s ∧ s.expr.matchesAt s.location f.time = true) ∧
    en.log.Pairwise (fun later earlier => later.schedule = earlier.schedule → earlier.time < later.time)

/-- Wherever a next time is computed, the expression has one that the search finds; and a
schedule is resumed only when the clock has reached its last time. -/
def Clean (en : Engine) : Choice → Prop
  | .add now id cronExpr loc _ => ∀ expr,parseExpression cronExpr = .ok expr → en.schedules id = none → Findable expr loc now
  | .resume now id _ => ∀ a s,en.find id = some (a,s) → s.isPaused = true → Findable s.expr s.location now ∧ s.lastRun ≤ now
  | .iterate now first _ => ∀ s,en.records[first]? = some s → en.Due now s → s.isPaused = false →
      Findable s.expr s.location s.nextRun
  | _ => True

/-- A schedule in the queue has a match as its next time, later than all its dispatches. -/
structure Sound (en : Engine) (a : Nat) (s : Schedule) : Prop where
  last : ∀ f ∈ en.log,f.schedule = a → f.time ≤ s.lastRun
  next : s.queued = true → s.expr.matchesAt s.location s.nextRun = true ∧ ∀ f ∈ en.log,f.schedule = a → f.time < s.nextRun

structure Inv (en : Engine) : Prop where
  sound : ∀ a s,en.records[a]? = some s → Sound en a s
  fired : Fired en

variable {en : Engine} {a : Nat} {s s' : Schedule} {id : String}

lemma find_record (found : en.find id = some (a,s)) : en.records[a]? = some s := by
  obtain ⟨b,-,read⟩ := Option.bind_eq_some_iff.mp found
  obtain ⟨record,stored,same⟩ := Option.map_eq_some_iff.mp read
  cases same
  exact stored

lemma put_records (stored : en.records[a]? = some s) (b : Nat) :
    (en.put a s').records[b]? = if a = b then some s' else en.records[b]? := by
  have inside := (List.getElem?_eq_some_iff.mp stored).1
  split_ifs with same
  · subst same
    exact getElem?_set_self inside
  · exact getElem?_set_ne same

lemma Fired.put (fired : Fired en) (stored : en.records[a]? = some s) (expr : s'.expr = s.expr)
    (location : s'.location = s.location) : Fired (en.put a s') := by
  refine ⟨fun f member => ⟨(fired.1 f member).1,?_⟩,fired.2⟩
  obtain ⟨record,read,matches_⟩ := (fired.1 f member).2
  rw [put_records stored]
  split_ifs with here
  · refine ⟨s',rfl,?_⟩
    rw [← here,stored] at read
    cases read
    rw [expr,location]
    exact matches_
  · exact ⟨record,read,matches_⟩

section
variable (inv : Inv en)
include inv

lemma Inv.put (stored : en.records[a]? = some s) (expr : s'.expr = s.expr)
    (location : s'.location = s.location) (sound : Sound en a s') : Inv (en.put a s') := by
  refine ⟨fun b record read => ?_,inv.fired.put stored expr location⟩
  rw [put_records stored] at read
  split_ifs at read with here
  · cases read
    rw [← here]
    exact ⟨sound.last,sound.next⟩
  · have before := inv.sound b record read
    exact ⟨before.last,before.next⟩

variable {now : Time} {fuel : Nat}

lemma add_inv {cronExpr : Str} {loc : Location}
    (clean : Clean en (.add now id cronExpr loc fuel)) : Inv (en.step (.add now id cronExpr loc fuel)) := by
  rw [step]
  split
  · exact inv
  next expr parsed =>
    split_ifs with exists_
    · exact inv
    · split
      · exact inv
      next nextRun found =>
        have findable := clean expr parsed (by simpa using exists_)
        have unknown f (member : f ∈ en.log) : f.schedule ≠ en.records.length := by
          obtain ⟨s,read,-⟩ := (inv.fired.1 f member).2
          exact Nat.ne_of_lt (List.getElem?_eq_some_iff.mp read).1
        refine ⟨fun b record read => ?_,fun f member => ⟨(inv.fired.1 f member).1,?_⟩,inv.fired.2⟩
        · dsimp only at read
          rw [getElem?_append] at read
          split_ifs at read with old
          · have before := inv.sound b record read
            exact ⟨before.last,before.next⟩
          · obtain ⟨inside,same⟩ := List.getElem?_eq_some_iff.mp read
            have here : b = en.records.length := by
              rw [length_singleton] at inside
              omega
            subst here
            simp only [Nat.sub_self,getElem_cons_zero] at same
            subst same
            exact ⟨fun f member same => absurd same (unknown f member),
              fun _ => ⟨(nextIn_later findable found).2,fun f member same => absurd same (unknown f member)⟩⟩
        · obtain ⟨s,read,matches_⟩ := (inv.fired.1 f member).2
          exact ⟨s,(List.getElem?_append_left (List.getElem?_eq_some_iff.mp read).1).trans read,matches_⟩

lemma remove_inv (id : String) : Inv (en.step (.remove id)) := by
  rw [step]
  split
  · exact inv
  next a s found =>
    have stored := find_record found
    have before := inv.sound a s stored
    have changed : Inv (en.put a { s with queued := false }) := inv.put stored rfl rfl ⟨before.last,nofun⟩
    exact ⟨fun b record read => ⟨(changed.sound b record read).last,(changed.sound b record read).next⟩,changed.fired⟩

lemma pause_inv (id : String) : Inv (en.step (.pause id)) := by
  rw [step]
  split
  · exact inv
  next a s found =>
    have stored := find_record found
    have before := inv.sound a s stored
    exact inv.put stored rfl rfl ⟨before.last,before.next⟩

lemma resume_inv (clean : Clean en (.resume now id fuel)) : Inv (en.step (.resume now id fuel)) := by
  rw [step]
  split
  · exact inv
  next a s found =>
    split_ifs with active
    · exact inv
    · split
      · exact inv
      next nextRun later =>
        have stored := find_record found
        have before := inv.sound a s stored
        obtain ⟨findable,reached⟩ := clean a s found (by simpa using active)
        obtain ⟨ahead,matches_⟩ := nextIn_later findable later
        refine inv.put stored rfl rfl ⟨before.last,fun _ => ⟨matches_,fun f member same => ?_⟩⟩
        exact lt_of_le_of_lt ((before.last f member same).trans reached) ahead

lemma fire_inv {nextRun : Time} (stored : en.records[a]? = some s) (due : en.Due now s)
    (later : s.isPaused = false → s.nextRun < nextRun ∧ s.expr.matchesAt s.location nextRun = true) :
    Inv { en.put a { s with lastRun := s.nextRun,nextRun := nextRun,queued := !s.isPaused } with
      log := ⟨a,s.nextRun,now⟩ :: en.log } := by
  obtain ⟨matches_,ahead⟩ := (inv.sound a s stored).next due.1
  have kept : Fired (en.put a { s with lastRun := s.nextRun,nextRun := nextRun,queued := !s.isPaused }) :=
    inv.fired.put stored rfl rfl
  refine ⟨fun b record read => ?_,?_,?_⟩
  · dsimp only at read
    rw [put_records stored] at read
    split_ifs at read with here
    · cases read
      subst here
      have upTo f (member : f ∈ (⟨a,s.nextRun,now⟩) :: en.log) (same : f.schedule = a) :
          f.time ≤ s.nextRun := by
        obtain rfl | old := mem_cons.mp member
        · exact le_rfl
        · exact (ahead f old same).le
      refine ⟨upTo,fun queued => ?_⟩
      obtain ⟨greater,good⟩ := later (by simpa using queued)
      exact ⟨good,fun f member same => lt_of_le_of_lt (upTo f member same) greater⟩
    · have before := inv.sound b record read
      have others f (member : f ∈ (⟨a,s.nextRun,now⟩) :: en.log) (same : f.schedule = b) : f ∈ en.log := by
        obtain rfl | old := mem_cons.mp member
        · exact absurd same here
        · exact old
      refine ⟨fun f member same => before.last f (others f member same) same,fun queued => ?_⟩
      exact ⟨(before.next queued).1,fun f member same => (before.next queued).2 f (others f member same) same⟩
  · intro f member
    obtain rfl | old := mem_cons.mp member
    · exact ⟨due.2.2,{ s with lastRun := s.nextRun,nextRun := nextRun,queued := !s.isPaused },
        (put_records stored a).trans (if_pos rfl),matches_⟩
    · exact kept.1 f old
  · refine pairwise_cons.mpr ⟨fun f member same => ?_,inv.fired.2⟩
    exact ahead f member same.symm

lemma step_inv {choice : Choice} (clean : Clean en choice) : Inv (en.step choice) := by
  cases choice with
  | add now id cronExpr loc fuel => exact add_inv inv clean
  | remove id => exact remove_inv inv id
  | pause id => exact pause_inv inv id
  | resume now id fuel => exact resume_inv inv clean
  | iterate now first fuel =>
    rw [step]
    split
    · exact inv
    next s stored =>
      split_ifs with due
      · split
        · exact inv
        next nextRun found =>
          refine fire_inv inv stored due (fun active => ?_)
          exact nextIn_later (clean s stored due active) found
      · exact inv

end

/-- In every run in which each next time that is computed has a match for the search to find,
and no schedule is resumed before the clock has reached its last time, every dispatch of
the loop is due, matches and is later than the one before. -/
theorem fired_of_clean (clockSkewAllowance : Int) (choices : List Choice)
    (clean : Along step Clean (new clockSkewAllowance) choices) :
    Throughout step Fired (new clockSkewAllowance) choices := by
  have start : Inv (new clockSkewAllowance) := ⟨nofun,nofun,List.Pairwise.nil⟩
  have kept : Throughout step Inv (new clockSkewAllowance) choices :=
    Along.throughout (fun _ _ inv clean => step_inv inv clean) start clean
  exact kept.mono (fun _ inv => inv.fired)

def every : Expression := ⟨1152921504606846975,16777215,4294967294,8190,127⟩

lemma parse_every : parseExpression ['*',' ','*',' ','*',' ','*',' ','*'] = .ok every := by decide +kernel

def everyMinute : List Choice :=
  [.add 0 "a" ['*',' ','*',' ','*',' ','*',' ','*'] .utc 2,.iterate (1 * minuteLength) 0 2,.iterate (2 * minuteLength) 0 2]

/-- The engine with one schedule, of every minute. -/
def minutes (lastRun nextRun : Time) (log : List Firing) : Engine :=
  ⟨0,Function.update (fun _ => none) "a" (some 0),[⟨every,.utc,nextRun,lastRun,false,true⟩],log⟩

lemma registered_minutes : step (new 0) (.add 0 "a" ['*',' ','*',' ','*',' ','*',' ','*'] .utc 2) = minutes 0 (1 * minuteLength) [] := by
  rw [step,parse_every]
  rfl

lemma dispatched_minutes : step (minutes 0 (1 * minuteLength) []) (.iterate (1 * minuteLength) 0 2) =
    minutes (1 * minuteLength) (2 * minuteLength) [⟨0,1 * minuteLength,1 * minuteLength⟩] := by
  rfl

lemma findable_every (x : Int) (within : x < limit (following ((x - 1) * minuteLength))) (accepted : every.accepts x = true) :
    Findable every .utc ((x - 1) * minuteLength) := by
  refine findable_utc (x := x) ?_ within accepted
  rw [minuteLength]
  omega

/-- A schedule of every minute is registered and dispatched in the first and in the second one. -/
theorem dispatched_each_minute :
    (everyMinute.foldl step (new 0)).log.map Firing.time = [2 * minuteLength,1 * minuteLength] ∧
      Throughout step Fired (new 0) everyMinute := by
  constructor
  · rw [everyMinute,foldl_cons,registered_minutes,foldl_cons,dispatched_minutes]
    rfl
  · refine fired_of_clean 0 _ ⟨fun expr parsed _ => ?_,?_,?_,trivial⟩
    · rw [parse_every] at parsed
      cases parsed
      exact findable_every 1 (by decide +kernel) (by decide +kernel)
    · rw [registered_minutes]
      intro s stored _ _
      cases stored
      exact findable_every 2 (by decide +kernel) (by decide +kernel)
    · rw [registered_minutes,dispatched_minutes]
      intro s stored _ _
      cases stored
      exact findable_every 3 (by decide +kernel) (by decide +kernel)

/-- The thirtieth of February is dispatched at once, at the zero time; and with an allowance for
the clock a schedule that is paused and resumed early is dispatched twice for one time. -/
theorem never_due_and_twice :
    ¬Throughout step Fired (new 0)
      [.add (date 2024 1 1 0 0 * minuteLength) "a" ['0',' ','0',' ','3','0',' ','2',' ','*'] .utc 400,
        .iterate (date 2024 1 1 0 0 * minuteLength) 0 400] ∧
    ¬Throughout step Fired (new 50000000)
      [.add 0 "a" ['*',' ','*',' ','*',' ','*',' ','*'] .utc 2,.iterate 59970000000 0 2,.pause "a",
        .resume 59980000000 "a" 2,.iterate 59990000000 0 2] := by
  refine ⟨fun throughout => ?_,fun throughout => ?_⟩
  · obtain ⟨each,-⟩ := throughout _ prefix_rfl
    revert each
    generalize ended : List.foldl step (new 0) _ = en
    intro each
    have seen : (en.log,en.records.map (fun s => s.expr.matchesAt s.location 0)) =
        ([⟨0,0,date 2024 1 1 0 0 * minuteLength⟩],[false]) := by
      rw [← ended]
      decide +kernel
    obtain ⟨log,refused⟩ := Prod.mk.inj seen
    obtain ⟨s,read,matches_⟩ := (each ⟨0,0,date 2024 1 1 0 0 * minuteLength⟩ (by rw [log]; exact mem_singleton_self _)).2
    have listed := mem_map_of_mem (f := fun s : Schedule => s.expr.matchesAt s.location 0) (mem_of_getElem? read)
    rw [refused,matches_] at listed
    simp at listed
  · have pairs := (throughout _ prefix_rfl).2
    have twice : (List.foldl step (new 50000000) [.add 0 "a" ['*',' ','*',' ','*',' ','*',' ','*'] .utc 2,
        .iterate 59970000000 0 2,.pause "a",.resume 59980000000 "a" 2,.iterate 59990000000 0 2]).log =
        [⟨0,60000000000,59990000000⟩,⟨0,60000000000,59970000000⟩] := by decide +kernel
    revert pairs
    decide

end Engine

end Tempest.Cron
