import Mathlib.Data.Finset.Card
import Mathlib.Data.Fintype.Basic
import Tempest.Lib.Interaction

/-! The barrier of `internal/barrier`. The barrier itself has the fields of the source; around
it stand the calls of `ArriveAndWait`, the goroutines that watch their contexts, and a record
of the run that the code does not keep: the number of generations so far (the source's counter
wraps round) and the parties that arrived in each. Every locked section is a step. -/
namespace Tempest.Barriers
open Interaction Function

inductive Err (E : Type)
  | errBarrierBroken
  | errAlreadyArrived
  | errInvalidThreshold
  | other (err : E)
  deriving DecidableEq

structure Barrier (P E : Type) where
  threshold : Int
  arrived : Finset P
  generation : UInt64
  broken : Bool
  brokenErr : Option (Err E)

namespace Barrier

variable {P E : Type}

def newBarrier (threshold : Int) : Except (Err E) (Barrier P E) :=
  if threshold ≤ 0 then .error .errInvalidThreshold else .ok ⟨threshold,∅,0,false,none⟩

def breakLocked (b : Barrier P E) (err : Option (Err E)) : Barrier P E :=
  if b.broken then b
  else
    { b with
      broken := true
      brokenErr := match err with
        | none => some .errBarrierBroken
        | some err => some err }

def reset (b : Barrier P E) : Barrier P E :=
  { b with broken := false,brokenErr := none,generation := b.generation + 1,arrived := ∅ }

end Barrier

/-- A call of `ArriveAndWait`: `waiting` has the generation it read and its place in the count
of generations, `returned` the latter and the two results. A call that is refused on entry has
not arrived. -/
inductive Call (E : Type)
  | fresh
  | refused (err : Option (Err E))
  | waiting (gen : UInt64) (epoch : Nat)
  | returned (epoch : Nat) (isLast : Bool) (err : Option (Err E))
  deriving DecidableEq

def Call.place {E : Type} : Call E → Option Nat
  | .waiting _ epoch => some epoch
  | _ => none

structure World (C P E : Type) where
  barrier : Barrier P E
  epoch : Nat
  arrivals : Nat → Finset P
  call : C → Call E
  watch : C → Option UInt64

inductive Choice (C P E : Type)
  | arrive (c : C) (party : P)
  | wake (c : C)
  | cancel (c : C) (err : E)
  | breakWith (err : Option (Err E))
  | reset

namespace World

variable {C P E : Type} [DecidableEq C] [DecidableEq P]

def init (b : Barrier P E) : World C P E := ⟨b,0,fun _ => ∅,fun _ => .fresh,fun _ => none⟩

def put (w : World C P E) (c : C) (call : Call E) : World C P E := { w with call := Function.update w.call c call }

def record (w : World C P E) (party : P) : World C P E :=
  { w with arrivals := Function.update w.arrivals w.epoch (insert party (w.arrivals w.epoch)) }

def join (w : World C P E) (party : P) : World C P E :=
  { w.record party with barrier := { w.barrier with arrived := insert party w.barrier.arrived } }

def trip (w : World C P E) (party : P) : World C P E :=
  { w.record party with
    barrier := { w.barrier with generation := w.barrier.generation + 1,arrived := ∅ }
    epoch := w.epoch + 1 }

def arrive (w : World C P E) (c : C) (party : P) : World C P E :=
  if w.barrier.broken then w.put c (.refused w.barrier.brokenErr)
  else if party ∈ w.barrier.arrived then w.put c (.refused (some .errAlreadyArrived))
  else if w.barrier.threshold ≤ ((insert party w.barrier.arrived).card : Int) then
    (w.trip party).put c (.returned w.epoch true none)
  else
    { w.join party with watch := Function.update w.watch c (some w.barrier.generation) }.put c
      (.waiting w.barrier.generation w.epoch)

def wake (w : World C P E) (c : C) : World C P E :=
  match w.call c with
  | .waiting gen epoch =>
    if gen == w.barrier.generation && !w.barrier.broken then w
    else if w.barrier.broken then w.put c (.returned epoch false w.barrier.brokenErr)
    else w.put c (.returned epoch false none)
  | _ => w

/-- The goroutine of a call whose context is done; it may come late, after the call has
returned. -/
def cancel (w : World C P E) (c : C) (err : E) : World C P E :=
  match w.watch c with
  | some gen =>
    { w with
      watch := Function.update w.watch c none
      barrier :=
        if gen == w.barrier.generation && !w.barrier.broken then w.barrier.breakLocked (some (.other err))
        else w.barrier }
  | none => w

def step (w : World C P E) : Choice C P E → World C P E
  | .arrive c party =>
    match w.call c with
    | .fresh => w.arrive c party
    | _ => w
  | .wake c => w.wake c
  | .cancel c err => w.cancel c err
  | .breakWith err => { w with barrier := w.barrier.breakLocked err }
  | .reset => { w with barrier := w.barrier.reset,epoch := w.epoch + 1 }

def Tripped (w : World C P E) (epoch : Nat) : Prop := w.barrier.threshold ≤ ((w.arrivals epoch).card : Int)

/-- A call returns a nil error if and only if its generation was tripped; so the calls of one
generation agree. -/
def Agreed (w : World C P E) : Prop :=
  (∀ c epoch isLast err,w.call c = .returned epoch isLast err → (err = none ↔ w.Tripped epoch)) ∧
    ∀ c d epoch last last' err err',w.call c = .returned epoch last err → w.call d = .returned epoch last' err' →
      (err = none ↔ err' = none)

def AllHere (w : World C P E) : Prop := ∀ c,∀ epoch ∈ (w.call c).place,epoch = w.epoch

/-- The barrier is not broken while calls of a tripped generation have yet to wake up, and not
reset while calls of the current one wait. -/
def Clean (w : World C P E) : Choice C P E → Prop
  | .cancel c _ => w.watch c = some w.barrier.generation → w.barrier.broken = false → w.AllHere
  | .breakWith _ => w.barrier.broken = false → w.AllHere
  | .reset => ∀ c,(w.call c).place ≠ some w.epoch
  | _ => True

instance [Fintype C] (w : World C P E) : Decidable w.AllHere :=
  inferInstanceAs (Decidable (∀ c,∀ epoch ∈ (w.call c).place,epoch = w.epoch))

instance [Fintype C] (w : World C P E) (choice : Choice C P E) : Decidable (w.Clean choice) := by
  cases choice <;> (unfold Clean; infer_instance)

structure Inv (w : World C P E) : Prop where
  named : w.barrier.broken = true → w.barrier.brokenErr ≠ none
  current : w.arrivals w.epoch = w.barrier.arrived
  later : ∀ epoch,w.epoch < epoch → w.arrivals epoch = ∅
  positive : 0 < w.barrier.threshold
  short : (w.barrier.arrived.card : Int) < w.barrier.threshold
  here : ∀ c gen,w.call c = .waiting gen w.epoch → gen = w.barrier.generation
  waiting : ∀ c gen epoch,w.call c = .waiting gen epoch → epoch ≤ w.epoch ∧
    (epoch < w.epoch → w.barrier.broken = false ∧ w.Tripped epoch)
  returned : ∀ c epoch isLast err,w.call c = .returned epoch isLast err → epoch ≤ w.epoch ∧
    (epoch = w.epoch → w.barrier.broken = true) ∧ (err = none ↔ w.Tripped epoch)

variable {w : World C P E}

section
omit [DecidableEq C] [DecidableEq P]

lemma init_inv {threshold : Int} {b : Barrier P E} (made : Barrier.newBarrier threshold = .ok b) :
    Inv (init b : World C P E) := by
  rw [Barrier.newBarrier] at made
  split_ifs at made with positive
  cases made
  exact ⟨nofun,rfl,fun _ _ => rfl,not_le.mp positive,not_le.mp positive,nofun,nofun,nofun⟩

lemma Inv.watched (inv : Inv w) (watch : C → Option UInt64) : Inv { w with watch := watch } :=
  ⟨inv.named,inv.current,inv.later,inv.positive,inv.short,inv.here,inv.waiting,inv.returned⟩

end

omit [DecidableEq P] in
lemma Inv.put (inv : Inv w) (c : C) {call : Call E}
    (waits : ∀ gen epoch,call = .waiting gen epoch → gen = w.barrier.generation ∧ epoch = w.epoch)
    (returns : ∀ epoch isLast err,call = .returned epoch isLast err → epoch ≤ w.epoch ∧
      (epoch = w.epoch → w.barrier.broken = true) ∧ (err = none ↔ w.Tripped epoch)) : Inv (w.put c call) := by
  have new d other (found : (w.put c call).call d = other) : other = call ∨ w.call d = other := by
    rw [World.put] at found
    dsimp only at found
    by_cases same : d = c
    · rw [same,update_self] at found
      exact .inl found.symm
    · rw [update_of_ne same] at found
      exact .inr found
  refine ⟨inv.named,inv.current,inv.later,inv.positive,inv.short,?_,?_,?_⟩
  · intro d gen found
    obtain same | before := new d _ found
    · exact (waits gen _ same.symm).1
    · exact inv.here d gen before
  · intro d gen epoch found
    obtain rfl | before := new d _ found
    · have place := (waits gen epoch rfl).2
      exact ⟨place.le,fun early => absurd place early.ne⟩
    · exact inv.waiting d gen epoch before
  · intro d epoch isLast err found
    obtain rfl | before := new d _ found
    · exact returns epoch isLast err rfl
    · exact inv.returned d epoch isLast err before

variable {party : P} {epoch : Nat} {c : C}

omit [DecidableEq C] in
lemma tripped_record {w' : World C P E} (arrivals : w'.arrivals = (w.record party).arrivals)
    (threshold : w'.barrier.threshold = w.barrier.threshold) (other : epoch ≠ w.epoch) :
    w'.Tripped epoch ↔ w.Tripped epoch := by
  rw [Tripped,Tripped,arrivals,threshold,record]
  dsimp only
  rw [update_of_ne other]

omit [DecidableEq C] [DecidableEq P] in
lemma Inv.returned_before (inv : Inv w) (whole : w.barrier.broken = false) {isLast : Bool}
    {err : Option (Err E)} (found : w.call c = .returned epoch isLast err) : epoch < w.epoch := by
  obtain ⟨early,last,-⟩ := inv.returned c epoch isLast err found
  refine lt_of_le_of_ne early (fun same => ?_)
  rw [last same] at whole
  cases whole

section
omit [DecidableEq C]

lemma Inv.join (inv : Inv w) (whole : w.barrier.broken = false)
    (few : ¬w.barrier.threshold ≤ ((insert party w.barrier.arrived).card : Int)) : Inv (w.join party) := by
  refine ⟨inv.named,?_,?_,inv.positive,not_le.mp few,inv.here,?_,?_⟩
  · rw [World.join,record]
    dsimp only
    rw [update_self,inv.current]
  · intro epoch late
    have late' : w.epoch < epoch := late
    rw [World.join,record]
    dsimp only
    rw [update_of_ne late'.ne',inv.later epoch late']
  · intro c gen epoch found
    obtain ⟨early,past⟩ := inv.waiting c gen epoch found
    refine ⟨early,fun before => ⟨(past before).1,?_⟩⟩
    have other : epoch ≠ w.epoch := Nat.ne_of_lt before
    exact (tripped_record rfl rfl other).mpr (past before).2
  · intro c epoch isLast err found
    obtain ⟨early,last,agrees⟩ := inv.returned c epoch isLast err found
    have before := inv.returned_before whole found
    exact ⟨early,last,agrees.trans (tripped_record rfl rfl before.ne).symm⟩

lemma Inv.trip_trips (inv : Inv w)
    (enough : w.barrier.threshold ≤ ((insert party w.barrier.arrived).card : Int)) : (w.trip party).Tripped w.epoch := by
  rw [Tripped,World.trip,record]
  dsimp only
  rw [update_self,inv.current]
  exact enough

lemma Inv.trip (inv : Inv w) (whole : w.barrier.broken = false)
    (enough : w.barrier.threshold ≤ ((insert party w.barrier.arrived).card : Int)) : Inv (w.trip party) := by
  have later epoch (late : w.epoch < epoch) : (w.trip party).arrivals epoch = ∅ := by
    rw [World.trip,record]
    dsimp only
    rw [update_of_ne late.ne',inv.later epoch late]
  refine ⟨inv.named,later _ (Nat.lt_succ_self _),fun epoch late => later epoch (Nat.lt_of_succ_lt late),inv.positive,
    inv.positive,?_,?_,?_⟩
  · intro c gen found
    exact absurd (inv.waiting c gen _ found).1 (Nat.not_succ_le_self _)
  · intro c gen epoch found
    obtain ⟨early,past⟩ := inv.waiting c gen epoch found
    refine ⟨Nat.le_succ_of_le early,fun _ => ⟨whole,?_⟩⟩
    by_cases now : epoch = w.epoch
    · rw [now]
      exact inv.trip_trips enough
    · exact (tripped_record rfl rfl now).mpr (past (lt_of_le_of_ne early now)).2
  · intro c epoch isLast err found
    obtain ⟨early,-,agrees⟩ := inv.returned c epoch isLast err found
    have before := inv.returned_before whole found
    exact ⟨Nat.le_succ_of_le early,fun same => absurd same (Nat.lt_succ_of_lt before).ne,
      agrees.trans (tripped_record rfl rfl before.ne).symm⟩

end

lemma arrive_inv (inv : Inv w) (c : C) (party : P) : Inv (w.arrive c party) := by
  rw [arrive]
  split_ifs with broken arrived enough
  · exact inv.put c nofun nofun
  · exact inv.put c nofun nofun
  · have whole : w.barrier.broken = false := by simpa using broken
    refine (inv.trip whole enough).put c nofun (fun epoch isLast err same => ?_)
    cases same
    exact ⟨Nat.le_succ _,fun same => absurd same (Nat.succ_ne_self _).symm,iff_of_true rfl (inv.trip_trips enough)⟩
  · have whole : w.barrier.broken = false := by simpa using broken
    refine ((inv.join whole enough).watched _).put c (fun gen epoch same => ?_) nofun
    cases same
    exact ⟨rfl,rfl⟩

omit [DecidableEq C] [DecidableEq P] in
lemma Inv.not_tripped (inv : Inv w) : ¬w.Tripped w.epoch := by
  rw [Tripped,inv.current]
  exact not_le.mpr inv.short

omit [DecidableEq P] in
lemma wake_inv (inv : Inv w) (c : C) : Inv (w.wake c) := by
  rw [wake]
  cases call : w.call c with
  | waiting gen epoch =>
    dsimp only
    obtain ⟨early,past⟩ := inv.waiting c gen epoch call
    split_ifs with still broken
    · exact inv
    -- the barrier is broken, so the generation is the current one
    · have now : epoch = w.epoch := by
        by_contra other
        have whole := (past (lt_of_le_of_ne early other)).1
        rw [broken] at whole
        cases whole
      subst now
      refine inv.put c nofun (fun epoch isLast err same => ?_)
      cases same
      exact ⟨le_rfl,fun _ => broken,iff_of_false (inv.named broken) inv.not_tripped⟩
    -- another generation, so this one has been tripped
    · have other : epoch ≠ w.epoch := by
        rintro rfl
        have same := inv.here c gen call
        simp [same,broken] at still
      refine inv.put c nofun (fun epoch' isLast err same => ?_)
      cases same
      exact ⟨early,fun same => absurd same other,iff_of_true rfl (past (lt_of_le_of_ne early other)).2⟩
  | _ => exact inv

omit [DecidableEq C] [DecidableEq P] in
lemma Inv.breakLocked (inv : Inv w) (err : Option (Err E)) (allHere : w.barrier.broken = false → w.AllHere) :
    Inv { w with barrier := w.barrier.breakLocked err } := by
  rw [Barrier.breakLocked.eq_def]
  split_ifs with broken
  · exact inv
  · refine ⟨fun _ => ?_,inv.current,inv.later,inv.positive,inv.short,inv.here,?_,?_⟩
    · cases err <;> nofun
    · intro c gen epoch found
      have now := allHere (by simpa using broken) c epoch (by rw [found]; rfl)
      exact ⟨now.le,fun early => absurd now early.ne⟩
    · intro c epoch isLast err found
      obtain ⟨early,last,agrees⟩ := inv.returned c epoch isLast err found
      exact ⟨early,fun _ => rfl,agrees⟩

omit [DecidableEq P] in
lemma cancel_inv (inv : Inv w) {err : E} (clean : Clean w (.cancel c err)) : Inv (w.cancel c err) := by
  rw [cancel]
  cases watch : w.watch c with
  | none => exact inv
  | some gen =>
    dsimp only
    split_ifs with current
    · simp only [Bool.and_eq_true,beq_iff_eq,Bool.not_eq_true'] at current
      have watched := clean (by rw [watch,current.1])
      exact (inv.breakLocked (some (.other err)) watched).watched (update w.watch c none)
    · exact inv.watched _

omit [DecidableEq C] [DecidableEq P] in
lemma Inv.reset (inv : Inv w) (clean : ∀ c,(w.call c).place ≠ some w.epoch) :
    Inv { w with barrier := w.barrier.reset,epoch := w.epoch + 1 } := by
  refine ⟨nofun,inv.later _ (Nat.lt_succ_self _),fun epoch late => inv.later epoch (Nat.lt_of_succ_lt late),inv.positive,?_,?_,?_,?_⟩
  · rw [Barrier.reset]
    exact inv.positive
  · intro c gen found
    have := (inv.waiting c gen _ found).1
    dsimp only at this
    omega
  · intro c gen epoch found
    obtain ⟨early,past⟩ := inv.waiting c gen epoch found
    have other : epoch ≠ w.epoch := by
      rintro rfl
      exact clean c (by rw [found]; rfl)
    exact ⟨Nat.le_succ_of_le early,fun _ => ⟨rfl,(past (lt_of_le_of_ne early other)).2⟩⟩
  · intro c epoch isLast err found
    obtain ⟨early,-,agrees⟩ := inv.returned c epoch isLast err found
    refine ⟨Nat.le_succ_of_le early,fun same => ?_,agrees⟩
    dsimp only at same
    omega

lemma step_inv (inv : Inv w) {choice : Choice C P E} (clean : Clean w choice) : Inv (w.step choice) := by
  cases choice with
  | arrive c party =>
    rw [step]
    split
    · exact arrive_inv inv c party
    · exact inv
  | wake c => exact wake_inv inv c
  | cancel c err => exact cancel_inv inv clean
  | breakWith err => exact inv.breakLocked err clean
  | reset => exact inv.reset clean

omit [DecidableEq C] [DecidableEq P] in
lemma Inv.agreed (inv : Inv w) : Agreed w := by
  refine ⟨fun c epoch isLast err found => (inv.returned c epoch isLast err found).2.2,?_⟩
  intro c d epoch last last' err err' first second
  exact (inv.returned c epoch last err first).2.2.trans (inv.returned d epoch last' err' second).2.2.symm

/-- In every run in which the barrier is broken only while all waiting calls are of the current
generation, and reset only while none of them waits, the calls agree in every state. -/
theorem agreed_of_clean {threshold : Int} {b : Barrier P E} (made : Barrier.newBarrier threshold = .ok b)
    (choices : List (Choice C P E)) (clean : Along step Clean (init b) choices) :
    Throughout step Agreed (init b : World C P E) choices := by
  have kept : Throughout step Inv (init b) choices :=
    Along.throughout (fun _ _ inv clean => step_inv inv clean) (init_inv made) clean
  exact kept.mono (fun _ inv => inv.agreed)

/-- Three parties and two generations, the first tripped, the second broken by a context. -/
theorem tripped_then_broken :
    Throughout step Agreed (init ⟨2,∅,0,false,none⟩ : World (Fin 3) (Fin 3) Unit)
      [.arrive 0 0,.arrive 1 1,.wake 0,.arrive 2 2,.cancel 2 (),.wake 2] :=
  agreed_of_clean (show Barrier.newBarrier 2 = .ok _ from rfl) _ (by decide)

/-- A reset releases a waiting call with a nil error though nobody else arrived; a break after
the barrier was tripped gives an error to a call of the tripped generation. -/
theorem released_and_failed :
    ¬Throughout step Agreed (init ⟨2,∅,0,false,none⟩ : World (Fin 2) (Fin 2) Unit) [.arrive 0 0,.reset,.wake 0] ∧
    ¬Throughout step Agreed (init ⟨2,∅,0,false,none⟩ : World (Fin 2) (Fin 2) Unit)
      [.arrive 0 0,.arrive 1 1,.breakWith none,.wake 0] := by
  refine ⟨fun throughout => ?_,fun throughout => ?_⟩
  · have alone := ((throughout _ List.prefix_rfl).1 0 0 false none (by decide)).mp rfl
    revert alone
    rw [Tripped]
    decide
  · have failed := (throughout _ List.prefix_rfl).2 0 1 0 false true (some .errBarrierBroken) none (by decide) (by decide)
    exact absurd (failed.mpr rfl) (by decide)

end World

end Tempest.Barriers
