import Tempest.Lib.Handoff
import Tempest.Lib.Interaction

/-! The lock of `internal/lock`. A caller that finds the lock held puts its channel into the
queue; `Unlock` takes the first channel out of the queue and sends to it, and the lock stays
held for that caller. Each caller makes one call of `Lock` or `TryLock` and, if it gets the
lock, one of `Unlock`; every locked section, and the choice that the `select` makes, is a
step. -/
namespace Tempest.Locks
open Handoff Interaction Function

structure Lock (C : Type) where
  held : Bool
  waiters : List C
  phase : C → Phase Unit

/-- `lock`, `tryLock` and `unlock` are locked sections, `leave` is the one after a
cancellation; `receive` and `cancel` are the branches of the `select`. -/
inductive Choice (C : Type)
  | lock (c : C)
  | receive (c : C)
  | cancel (c : C)
  | leave (c : C)
  | tryLock (c : C)
  | unlock (c : C)
  deriving DecidableEq

namespace Lock

variable {C : Type} [DecidableEq C]

def new : Lock C := ⟨false,[],fun _ => .fresh⟩

def put (l : Lock C) (c : C) (p : Phase Unit) : Lock C := { l with phase := Function.update l.phase c p }

def pass (l : Lock C) : Lock C :=
  match l.waiters with
  | [] => { l with held := false }
  | w :: rest => { l with waiters := rest }.put w (l.phase w).signal

def step (l : Lock C) : Choice C → Lock C
  | .lock c =>
    match l.phase c with
    | .fresh =>
      if !l.held then { l with held := true }.put c (.owner ())
      else { l with waiters := l.waiters ++ [c] }.put c (.waiting () false)
    | _ => l
  | .receive c =>
    match l.phase c with
    | .waiting _ true => l.put c (.owner ())
    | _ => l
  | .cancel c =>
    match l.phase c with
    | .waiting _ token => l.put c (.leaving () token)
    | _ => l
  | .leave c =>
    match l.phase c with
    | .leaving _ _ => { l with waiters := l.waiters.erase c }.put c .returned
    | _ => l
  | .tryLock c =>
    match l.phase c with
    | .fresh => if l.held then l.put c .returned else { l with held := true }.put c (.owner ())
    | _ => l
  | .unlock c =>
    match l.phase c with
    | .owner _ => if !l.held then l.put c .returned else (l.put c .returned).pass
    | _ => l

/-- At most one caller owns the lock; and if none does and no token is on its way to one that
will take it, the lock is free. -/
def Sound (l : Lock C) : Prop :=
  (∀ a b,l.phase a = .owner () → l.phase b = .owner () → a = b) ∧ ((∀ c,¬(l.phase c).holds ()) → l.held = false)

/-- No caller gives up with the token in its channel, and `Unlock` does not send to one that
has given up. -/
def Clean (l : Lock C) : Choice C → Prop
  | .cancel c => l.phase c ≠ .waiting () true
  | .unlock c => l.phase c = .owner () → ∀ w ∈ l.waiters.head?,l.phase w ≠ .leaving () false
  | _ => True

/-- The lock is held for exactly one caller or for none. -/
structure Inv (l : Lock C) : Prop where
  counted : Counted () (if l.held then 1 else 0) l.phase
  lined : Lined () l.waiters l.phase
  taken : ∀ c,l.phase c ≠ .leaving () true

omit [DecidableEq C] in
lemma Inv.free {l : Lock C} (inv : Inv l) (free : l.held = false) (c : C) : ¬(l.phase c).holds () := by
  have counted := inv.counted
  rw [free] at counted
  exact counted.none_holds c

variable {c : C}

section
omit [DecidableEq C]

lemma Inv.held {l : Lock C} (inv : Inv l) (holds : (l.phase c).holds ()) : l.held = true := by
  cases held : l.held with
  | true => rfl
  | false => exact absurd holds (inv.free held c)

lemma Inv.one {l : Lock C} (inv : Inv l) {a b : C} (first : (l.phase a).holds ()) (second : (l.phase b).holds ()) :
    a = b := by
  have counted := inv.counted
  rw [inv.held first] at counted
  exact counted.unique first second

lemma new_inv : Inv (new : Lock C) where
  counted := ⟨∅,fun c => ⟨nofun,by rintro (same | same) <;> cases same⟩,rfl⟩
  lined := ⟨fun c => ⟨nofun,by rintro (same | same) <;> cases same⟩,List.nodup_nil⟩
  taken c := nofun

end

variable {l : Lock C}

lemma Inv.aside (inv : Inv l) {p : Phase Unit} (holds : p.holds () ↔ (l.phase c).holds ())
    (queued : p.queued () ↔ (l.phase c).queued ()) (fine : p ≠ .leaving () true) : Inv (l.put c p) :=
  ⟨inv.counted.keep holds,inv.lined.keep queued,fun d => update_ne fine (inv.taken d)⟩

lemma Inv.acquire (inv : Inv l) (fresh : l.phase c = .fresh) (free : l.held = false) :
    Inv ({ l with held := true }.put c (.owner ())) := by
  have counted := inv.counted
  rw [free] at counted
  refine ⟨counted.gain (inv.free free c) (.inl rfl),inv.lined.keep ?_,fun d => update_ne nofun (inv.taken d)⟩
  rw [fresh]
  simp [Phase.queued]

lemma Inv.pass (inv : Inv l) (owner : l.phase c = .owner ())
    (clean : ∀ w ∈ l.waiters.head?,l.phase w ≠ .leaving () false) : Inv (l.put c .returned).pass := by
  have counted := inv.counted
  rw [inv.held (.inl owner)] at counted
  have nobody : Counted () 0 (update l.phase c .returned) := counted.lose (.inl owner) (by simp [Phase.holds])
  have lined : Lined () l.waiters (update l.phase c .returned) := by
    refine inv.lined.keep ?_
    rw [owner]
    simp [Phase.queued]
  have taken d : update l.phase c .returned d ≠ .leaving () true := update_ne nofun (inv.taken d)
  rw [Lock.pass,put]
  cases queue : l.waiters with
  | nil =>
    rw [queue] at lined
    exact ⟨nobody,lined,taken⟩
  | cons w rest =>
    rw [queue] at lined
    have waits : update l.phase c .returned w = .waiting () false := by
      have queued := (lined.queue w).mp List.mem_cons_self
      have other : w ≠ c := by
        rintro rfl
        rw [update_self] at queued
        obtain same | same := queued <;> cases same
      rw [update_of_ne other] at queued ⊢
      exact queued.resolve_right (clean w (by rw [queue]; rfl))
    dsimp only
    rw [waits]
    refine ⟨?_,lined.pop (by simp [Phase.queued,Phase.signal]),fun d => update_ne nofun (taken d)⟩
    have gained := nobody.gain (c := w) (p := .waiting () true) (nobody.none_holds w) (.inr rfl)
    rw [inv.held (.inl owner)]
    exact gained

lemma step_inv (inv : Inv l) {choice : Choice C} (clean : Clean l choice) : Inv (l.step choice) := by
  cases choice with
  | lock c =>
    rw [step]
    cases phase : l.phase c with
    | fresh =>
      split_ifs with free
      · exact inv.acquire phase (by simpa using free)
      · refine ⟨inv.counted.keep ?_,inv.lined.join ?_ (.inl rfl),fun d => update_ne nofun (inv.taken d)⟩
        · rw [phase]
          simp [Phase.holds]
        · rw [phase]
          simp [Phase.queued]
    | _ => exact inv
  | receive c =>
    rw [step]
    cases phase : l.phase c with
    | waiting kind token =>
      cases token with
      | false => exact inv
      | true =>
        refine inv.aside ?_ ?_ nofun
        · rw [phase]
          simp [Phase.holds]
        · rw [phase]
          simp [Phase.queued]
    | _ => exact inv
  | cancel c =>
    rw [step]
    cases phase : l.phase c with
    | waiting kind token =>
      cases token with
      | true => exact absurd phase clean
      | false =>
        refine inv.aside ?_ ?_ nofun
        · rw [phase]
          simp [Phase.holds]
        · rw [phase]
          simp [Phase.queued]
    | _ => exact inv
  | leave c =>
    rw [step]
    cases phase : l.phase c with
    | leaving kind token =>
      refine ⟨inv.counted.keep ?_,inv.lined.leave (by simp [Phase.queued]),fun d => update_ne nofun (inv.taken d)⟩
      rw [phase]
      simp [Phase.holds]
    | _ => exact inv
  | tryLock c =>
    rw [step]
    cases phase : l.phase c with
    | fresh =>
      split_ifs with held
      · refine inv.aside ?_ ?_ nofun
        · rw [phase]
          simp [Phase.holds]
        · rw [phase]
          simp [Phase.queued]
      · exact inv.acquire phase (by simpa using held)
    | _ => exact inv
  | unlock c =>
    rw [step]
    cases phase : l.phase c with
    | owner kind =>
      have held := inv.held (.inl phase)
      rw [held]
      exact inv.pass phase (clean phase)
    | _ => exact inv

section
omit [DecidableEq C]

lemma Inv.sound (inv : Inv l) : Sound l := by
  refine ⟨fun a b first second => inv.one (.inl first) (.inl second),fun none_ => ?_⟩
  cases held : l.held with
  | false => rfl
  | true =>
    obtain ⟨holders,all,card⟩ := inv.counted
    rw [held] at card
    obtain ⟨c,member⟩ := Finset.card_pos.mp (by rw [card]; exact Nat.one_pos)
    exact absurd ((all c).mp member) (none_ c)

lemma not_sound (inv : Inv l) (holds : (l.phase c).holds ()) {l' : Lock C} (held : l'.held = l.held)
    (gone : ¬(l'.phase c).holds ()) (others : ∀ d,(l'.phase d).holds () → (l.phase d).holds ()) : ¬Sound l' := by
  intro sound
  have free := sound.2 (fun d still => ?_)
  · rw [held,inv.held holds] at free
    cases free
  · rw [inv.one (others d still) holds] at still
    exact gone still

end

lemma sound_step_iff (inv : Inv l) (choice : Choice C) : Sound (l.step choice) ↔ Clean l choice := by
  refine ⟨fun sound => ?_,fun clean => (step_inv inv clean).sound⟩
  cases choice with
  | cancel c =>
    intro token
    have gaveUp : l.step (.cancel c) = l.put c (.leaving () true) := by rw [step,token]
    refine not_sound inv (c := c) (.inr token) ?_ ?_ ?_ sound
    · rw [gaveUp]
      rfl
    · rw [gaveUp,put]
      simp [Phase.holds]
    · intro d
      rw [gaveUp,put]
      dsimp only
      by_cases here : d = c
      · simp [here,Phase.holds]
      · rw [update_of_ne here]
        exact id
  | unlock c =>
    intro owner w first left
    obtain ⟨rest,queue⟩ := List.head?_eq_some_iff.mp first
    have other : w ≠ c := by
      rintro rfl
      rw [owner] at left
      cases left
    have passed : l.step (.unlock c) =
        { (l.put c .returned) with waiters := rest }.put w (.leaving () true) := by
      rw [step,owner]
      rw [inv.held (.inl owner)]
      simp [Lock.pass,put,queue,update_of_ne other,left,Phase.signal]
    refine not_sound inv (c := c) (.inl owner) ?_ ?_ ?_ sound
    · rw [passed]
      rfl
    · rw [passed,put,put]
      simp [update_of_ne other.symm,Phase.holds]
    · intro d
      rw [passed,put,put]
      dsimp only
      by_cases here : d = w
      · simp [here,Phase.holds]
      · rw [update_of_ne here]
        by_cases freed : d = c
        · simp [freed,Phase.holds]
        · rw [update_of_ne freed]
          exact id
  | _ => trivial

/-- In a run, at most one caller ever owns the lock and it is never held for nobody, exactly if
no caller gives up with the token in its channel and no token is sent to one that has
given up. -/
theorem sound_iff_clean (choices : List (Choice C)) :
    Throughout step Sound new choices ↔ Along step Clean (new : Lock C) choices := by
  rw [throughout_iff_along new_inv.sound]
  exact Along.congr (fun l choice inv clean => step_inv inv clean) (fun l choice inv => sound_step_iff inv choice) new_inv

/-- The waiter's context is cancelled while the token is on its way: nobody owns the lock, and
it stays held. -/
theorem handoff_lost :
    ¬Throughout step Sound (new : Lock Bool) [.lock false,.lock true,.unlock false,.cancel true,.leave true] := by
  intro throughout
  have free := (throughout _ List.prefix_rfl).2 (by decide)
  revert free
  decide

end Lock

end Tempest.Locks
