import Tempest.Lib.Interaction

/-! The breaker of `internal/circuitbreaker`. It has a count of the calls that were let through
half-open, with a limit of one, and never raises it. Times are in nanoseconds. -/
namespace Tempest.CircuitBreaker
open Interaction

inductive State
  | closed
  | open_
  | halfOpen
  deriving DecidableEq

structure Breaker where
  state : State := .closed
  failureCount : Int := 0
  successCount : Int := 0
  failureThreshold : Int
  successThreshold : Int
  timeout : Int
  lastFailure : Int := 0
  halfOpenMax : Int := 1
  halfOpenCount : Int := 0
  deriving DecidableEq

namespace Breaker

def new (failureThreshold successThreshold timeout : Int) : Breaker :=
  { failureThreshold := failureThreshold, successThreshold := successThreshold, timeout := timeout }

def allow (b : Breaker) (now : Int) : Breaker × Bool :=
  match b.state with
  | .closed => (b,true)
  | .open_ =>
    if now - b.lastFailure > b.timeout then ({ b with state := .halfOpen, halfOpenCount := 0, successCount := 0 },true)
    else (b,false)
  | .halfOpen => (b,b.halfOpenCount < b.halfOpenMax)

def recordSuccess (b : Breaker) : Breaker :=
  match b.state with
  | .closed => { b with failureCount := 0 }
  | .open_ => b
  | .halfOpen =>
    if b.successCount + 1 ≥ b.successThreshold then { b with state := .closed, failureCount := 0, successCount := 0 }
    else { b with successCount := b.successCount + 1 }

def recordFailure (b : Breaker) (now : Int) : Breaker :=
  match b.state with
  | .closed =>
    if b.failureCount + 1 ≥ b.failureThreshold then
      { b with failureCount := b.failureCount + 1, state := .open_, lastFailure := now }
    else { b with failureCount := b.failureCount + 1 }
  | .open_ => b
  | .halfOpen => { b with state := .open_, lastFailure := now, halfOpenCount := 0, successCount := 0 }

def reset (b : Breaker) : Breaker := { b with state := .closed, failureCount := 0, successCount := 0, halfOpenCount := 0 }

end Breaker

inductive Call
  | allow (now : Int)
  | recordSuccess
  | recordFailure (now : Int)
  | reset
  deriving DecidableEq

def Breaker.call (b : Breaker) : Call → Breaker
  | .allow now => (b.allow now).1
  | .recordSuccess => b.recordSuccess
  | .recordFailure now => b.recordFailure now
  | .reset => b.reset

def Breaker.admits (b : Breaker) : Call → Bool
  | .allow now => (b.allow now).2
  | _ => false

def Call.isResult : Call → Bool
  | .recordSuccess | .recordFailure _ => true
  | _ => false

/-- The breaker beside what was seen of it: how often `Allow` has returned true since the breaker
left the open state, as long as no result was recorded since, and when it was opened last. -/
structure Watched where
  breaker : Breaker
  probes : Option Nat := none
  openedAt : Int := 0

def Watched.step (w : Watched) (c : Call) : Watched where
  breaker := w.breaker.call c
  probes :=
    if c.isResult then none
    else if w.breaker.state = .open_ ∧ (w.breaker.call c).state ≠ .open_ then some (w.breaker.admits c).toNat
    else w.probes.map (· + (w.breaker.admits c).toNat)
  openedAt :=
    match c with
    | .recordFailure now => if w.breaker.state ≠ .open_ ∧ (w.breaker.call c).state = .open_ then now else w.openedAt
    | _ => w.openedAt

/-- No more probes than the limit, and none while the breaker is open and its timeout has not
passed. -/
structure Limited (w : Watched) : Prop where
  probes : ∀ n, w.probes = some n → n ≤ w.breaker.halfOpenMax
  refused : ∀ now, w.breaker.state = .open_ → now - w.openedAt ≤ w.breaker.timeout → (w.breaker.allow now).2 = false

/-- After the breaker has left the open state `Allow` is called once at most before a result is
recorded. -/
def Single (w : Watched) (c : Call) : Prop := ∀ now, c = .allow now → w.probes ≠ some 1

/-- What holds in every run, of the fields that the property reads. -/
structure Inv (w : Watched) : Prop where
  limit : w.breaker.halfOpenMax = 1
  count : w.breaker.halfOpenCount = 0
  opened : w.breaker.state = .open_ → w.breaker.lastFailure = w.openedAt
  left : w.probes ≠ none → w.breaker.state ≠ .open_

variable {w : Watched}

lemma Inv.step (inv : Inv w) (c : Call) : Inv (w.step c) := by
  obtain ⟨⟨state,failures,successes,failureThreshold,successThreshold,timeout,last,max,count⟩,probes,openedAt⟩ := w
  obtain ⟨limit,zero,opened,left⟩ := inv
  subst limit zero
  cases c with
  | allow now =>
    cases state with
    | open_ =>
      have none_ : probes = none := by
        by_contra some_
        exact left some_ rfl
      subst none_
      by_cases passed : now - last > timeout
      · refine ⟨?_,?_,?_,?_⟩ <;> simp [Watched.step,Breaker.call,Breaker.allow,passed]
      · refine ⟨?_,?_,?_,?_⟩ <;> simp [Watched.step,Breaker.call,Breaker.allow,passed,Call.isResult,← opened rfl]
    | _ => exact ⟨rfl,rfl,nofun,fun _ => nofun⟩
  | recordSuccess =>
    cases state with
    | halfOpen =>
      by_cases enough : successes + 1 ≥ successThreshold <;>
        refine ⟨?_,?_,?_,?_⟩ <;> simp [Watched.step,Breaker.call,Breaker.recordSuccess,enough,Call.isResult]
    | open_ => exact ⟨rfl,rfl,opened,fun some_ => absurd rfl some_⟩
    | closed => exact ⟨rfl,rfl,nofun,fun _ => nofun⟩
  | recordFailure now =>
    cases state with
    | closed =>
      by_cases enough : failures + 1 ≥ failureThreshold <;>
        refine ⟨?_,?_,?_,?_⟩ <;> simp [Watched.step,Breaker.call,Breaker.recordFailure,enough,Call.isResult]
    | open_ => exact ⟨rfl,rfl,opened,fun some_ => absurd rfl some_⟩
    | halfOpen => exact ⟨rfl,rfl,fun _ => rfl,fun some_ => absurd rfl some_⟩
  | reset => exact ⟨rfl,rfl,nofun,fun _ => nofun⟩

lemma Inv.limited_iff (inv : Inv w) : Limited w ↔ ∀ n,w.probes = some n → n ≤ 1 := by
  constructor
  · intro limited n counted
    have bound := limited.probes n counted
    rw [inv.limit] at bound
    omega
  · intro few
    refine ⟨fun n counted => ?_,fun now open_ early => ?_⟩
    · rw [inv.limit]
      exact_mod_cast few n counted
    · simp [Breaker.allow,open_,inv.opened open_,Int.not_lt.mpr early]

lemma Inv.admits (inv : Inv w) (closed : w.breaker.state ≠ .open_) (now : Int) :
    w.breaker.allow now = (w.breaker,true) := by
  unfold Breaker.allow
  cases state : w.breaker.state with
  | closed => rfl
  | open_ => exact absurd state closed
  | halfOpen => simp [inv.limit,inv.count]

lemma Inv.step_limited_iff (inv : Inv w) (few : ∀ n,w.probes = some n → n ≤ 1) (c : Call) :
    (∀ n,(w.step c).probes = some n → n ≤ 1) ↔ Single w c := by
  have counted : (w.step c).probes = if c.isResult then none
      else if w.breaker.state = .open_ ∧ (w.breaker.call c).state ≠ .open_ then some (w.breaker.admits c).toNat
      else w.probes.map (· + (w.breaker.admits c).toNat) := rfl
  rw [counted]
  cases window : w.probes with
  | none =>
    have single : Single w c := fun now _ => by rw [window]; nofun
    refine ⟨fun _ => single,fun _ n equal => ?_⟩
    split_ifs at equal
    · exact Option.some.inj equal ▸ Bool.toNat_le _
    · cases equal
  | some k =>
    have left := inv.left (by rw [window]; nofun)
    have bound := few k window
    rw [if_neg (show ¬(w.breaker.state = .open_ ∧ (w.breaker.call c).state ≠ .open_) from fun both => left both.1)]
    cases c with
    | allow now =>
      have granted : w.breaker.admits (.allow now) = true := congrArg Prod.snd (inv.admits left now)
      rw [granted]
      constructor
      · intro within _ _ one
        rw [window,Option.some.injEq] at one
        exact absurd (within (k + 1) rfl) (by omega)
      · intro single n equal
        have other : k ≠ 1 := fun one => single now rfl (by rw [window,one])
        have sum : k + 1 = n := Option.some.inj equal
        omega
    | reset =>
      refine ⟨fun _ _ => nofun,fun _ n equal => ?_⟩
      have sum : k + 0 = n := Option.some.inj equal
      omega
    | _ => exact ⟨fun _ _ => nofun,fun _ _ => nofun⟩

/-- In a run the limit is kept exactly if `Allow` is called once at most between the moment the
breaker leaves the open state and the next recorded result. -/
theorem probes_limited_iff (failureThreshold successThreshold timeout : Int) (calls : List Call) :
    Throughout Watched.step Limited ⟨Breaker.new failureThreshold successThreshold timeout,none,0⟩ calls ↔
      Along Watched.step Single ⟨Breaker.new failureThreshold successThreshold timeout,none,0⟩ calls := by
  have start : Inv ⟨Breaker.new failureThreshold successThreshold timeout,none,0⟩ := ⟨rfl,rfl,nofun,fun _ => nofun⟩
  have few := start.limited_iff.mpr nofun
  rw [throughout_iff_along few]
  apply Along.congr (P := fun w => Inv w ∧ ∀ n,w.probes = some n → n ≤ 1)
  · exact fun w c both single => ⟨both.1.step c,(both.1.step_limited_iff both.2 c).mpr single⟩
  · intro w c both
    rw [(both.1.step c).limited_iff]
    exact both.1.step_limited_iff both.2 c
  · exact ⟨start,nofun⟩

/-- Once the timeout has passed two calls of `Allow` are both let through. -/
theorem second_probe_admitted :
    ¬ Throughout Watched.step Limited ⟨Breaker.new 1 1 10,none,0⟩ [.recordFailure 0,.allow 11,.allow 11] := by
  intro limited
  have probes := (limited _ List.prefix_rfl).probes 2 rfl
  exact absurd probes (by decide)

end Tempest.CircuitBreaker
