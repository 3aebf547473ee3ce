import Tempest.Leader

/-! A candidate of `internal/leader`. Leadership is kept twice, in the state under the
lock and in a flag that `IsLeader` reads without it. The answers of the coordinator,
errors included, are given from outside; the callbacks are values of any type. -/
namespace Tempest.Leader
open Interaction

inductive State
  | follower | candidate | leader
  deriving DecidableEq

structure Config where
  leaseDuration : Duration
  renewInterval : Duration
  retryInterval : Duration
  deriving DecidableEq

def millisecond : Duration := 1000000

def defaultConfig : Config := ⟨500 * millisecond,150 * millisecond,100 * millisecond⟩

/-- A channel of capacity one is kept as whether a signal waits in it. -/
structure Candidate (κ : Type) where
  id : String
  cfg : Config
  state : State := .follower
  term : UInt64 := 0
  isLeader : Bool := false
  electedCh : Bool := false
  revokedCh : Bool := false
  onElected : List κ := []
  onRevoked : List κ := []

inductive Effect (κ : Type)
  | ask (id : String) (term : UInt64) (ttl : Duration)
  | release (id : String) (term : UInt64)
  | fire (callback : κ)
  | reset (interval : Duration)

variable {κ ε : Type}

def newCandidate (id : String) (cfg : Config) : Candidate κ where
  id := id
  cfg := {
    leaseDuration := if cfg.leaseDuration ≤ 0 then defaultConfig.leaseDuration else cfg.leaseDuration
    renewInterval := if cfg.renewInterval ≤ 0 then defaultConfig.renewInterval else cfg.renewInterval
    retryInterval := if cfg.retryInterval ≤ 0 then defaultConfig.retryInterval else cfg.retryInterval }

namespace Candidate

def ask (c : Candidate κ) : Effect κ := .ask c.id c.term c.cfg.leaseDuration

def campaign (c : Candidate κ) : Except ε (Record × Bool) → Except ε Bool × Candidate κ
  | .error e => (.error e,{ c with state := .follower })
  | .ok (record,true) => (.ok true,{ c with state := .leader, term := record.term, isLeader := true })
  | .ok (_,false) => (.ok false,{ c with state := .follower, isLeader := false })

def triggerElected (c : Candidate κ) : List (Effect κ) × Candidate κ :=
  (c.onElected.map .fire,{ c with electedCh := true })

def triggerRevoked (c : Candidate κ) : List (Effect κ) × Candidate κ :=
  (c.onRevoked.map .fire,{ c with revokedCh := true })

def yield (c : Candidate κ) : Candidate κ := { c with state := .follower, isLeader := false }

def stepDown (c : Candidate κ) : List (Effect κ) × Candidate κ :=
  if c.state = .leader then
    let revoked := c.yield.triggerRevoked
    (.release c.id c.term :: revoked.1,revoked.2)
  else ([],c.yield)

def renew (c : Candidate κ) : Except ε (Record × Bool) → List (Effect κ) × Candidate κ
  | .ok (record,true) => ([c.ask,.reset c.cfg.renewInterval],{ c with term := record.term })
  | .ok (_,false) | .error _ => (c.ask :: c.stepDown.1 ++ [.reset c.cfg.retryInterval],c.stepDown.2)

def tick (c : Candidate κ) (answer : Except ε (Record × Bool)) : List (Effect κ) × Candidate κ :=
  if c.state = .leader then c.renew answer
  else
    match c.campaign answer with
    | (.ok true,won) => (c.ask :: won.triggerElected.1 ++ [.reset c.cfg.renewInterval],won.triggerElected.2)
    | (_,lost) => ([c.ask,.reset c.cfg.retryInterval],lost)

end Candidate

/-- A call of `Campaign`, an iteration of the loop at a tick or after a stop, or a
registration. -/
inductive Move (κ ε : Type)
  | campaign (answer : Except ε (Record × Bool))
  | tick (answer : Except ε (Record × Bool))
  | stop
  | onElected (callback : κ)
  | onRevoked (callback : κ)

namespace Candidate

def perform (c : Candidate κ) : Move κ ε → List (Effect κ) × Candidate κ
  | .campaign answer => ([c.ask],(c.campaign answer).2)
  | .tick answer => c.tick answer
  | .stop => c.stepDown
  | .onElected callback => ([],{ c with onElected := c.onElected ++ [callback] })
  | .onRevoked callback => ([],{ c with onRevoked := c.onRevoked ++ [callback] })

def step (c : Candidate κ) (m : Move κ ε) : Candidate κ := (c.perform m).2

def Agrees (c : Candidate κ) : Prop := c.isLeader = true ↔ c.state = .leader

def Revokes (c : Candidate κ) : Move κ ε → Prop
  | .campaign _ | .onElected _ | .onRevoked _ => True
  | move@(.tick _) | move@.stop =>
    c.isLeader = true → (c.step move).isLeader = false ∨ (c.step move).state ≠ .leader →
      .release c.id c.term ∈ (c.perform move).1 ∧ (∀ callback ∈ c.onRevoked, .fire callback ∈ (c.perform move).1) ∧
        (c.step move).revokedCh = true

def Spared (c : Candidate κ) : Move κ ε → Prop
  | .campaign (.error _) => c.isLeader = false
  | .campaign (.ok _) | .tick _ | .stop | .onElected _ | .onRevoked _ => True

variable {c : Candidate κ}

lemma agrees_of_follower (state : c.state ≠ .leader) (flag : c.isLeader = false) : c.Agrees := by
  rw [Agrees,flag]
  exact iff_of_false Bool.false_ne_true state

lemma agrees_of_leader (state : c.state = .leader) (flag : c.isLeader = true) : c.Agrees :=
  iff_of_true flag state

lemma Agrees.flag (agrees : c.Agrees) (state : c.state ≠ .leader) : c.isLeader = false := by
  rw [← Bool.not_eq_true]
  intro flag
  exact state (agrees.mp flag)

lemma stepDown_follows (c : Candidate κ) : c.stepDown.2.state = .follower ∧ c.stepDown.2.isLeader = false := by
  rw [stepDown]
  split_ifs <;> exact ⟨rfl,rfl⟩

lemma stepDown_agrees (c : Candidate κ) : c.stepDown.2.Agrees := by
  obtain ⟨state,flag⟩ := c.stepDown_follows
  apply agrees_of_follower _ flag
  rw [state]
  decide

lemma stepDown_revokes (leads : c.state = .leader) :
    .release c.id c.term ∈ c.stepDown.1 ∧ (∀ callback ∈ c.onRevoked,.fire callback ∈ c.stepDown.1) ∧
      c.stepDown.2.revokedCh = true := by
  rw [stepDown,if_pos leads]
  refine ⟨List.mem_cons_self,?_,rfl⟩
  intro callback member
  exact List.mem_cons_of_mem _ (List.mem_map_of_mem member)

lemma campaign_agrees_iff (answer : Except ε (Record × Bool)) :
    (c.campaign answer).2.Agrees ↔ c.Spared (.campaign answer : Move κ ε) := by
  rcases answer with e | ⟨record,acquired⟩
  · have follows : (c.campaign (.error e : Except ε (Record × Bool))).2.state ≠ .leader := by
      intro leads
      cases leads
    constructor
    · intro after
      exact after.flag follows
    · intro flag
      exact agrees_of_follower follows flag
  · apply iff_of_true _ trivial
    cases acquired with
    | true => exact agrees_of_leader rfl rfl
    | false =>
      refine agrees_of_follower ?_ rfl
      intro leads
      cases leads

lemma renew_agrees (agrees : c.Agrees) (answer : Except ε (Record × Bool)) : (c.renew answer).2.Agrees := by
  rcases answer with e | ⟨record,renewed⟩
  · exact c.stepDown_agrees
  · cases renewed with
    | true => exact agrees
    | false => exact c.stepDown_agrees

lemma tick_campaign (follows : c.state ≠ .leader) (answer : Except ε (Record × Bool)) :
    (c.tick answer).2.isLeader = (c.campaign answer).2.isLeader ∧
      (c.tick answer).2.state = (c.campaign answer).2.state := by
  rw [tick,if_neg follows]
  rcases answer with e | ⟨record,acquired⟩
  · exact ⟨rfl,rfl⟩
  · cases acquired <;> exact ⟨rfl,rfl⟩

lemma tick_agrees (agrees : c.Agrees) (answer : Except ε (Record × Bool)) : (c.tick answer).2.Agrees := by
  by_cases leads : c.state = .leader
  · rw [tick,if_pos leads]
    exact renew_agrees agrees answer
  · obtain ⟨flag,state⟩ := tick_campaign leads answer
    have after : (c.campaign answer).2.Agrees := by
      rw [campaign_agrees_iff]
      cases answer with
      | error e => exact agrees.flag leads
      | ok answer => trivial
    rw [Agrees,flag,state]
    exact after

lemma agrees_step_iff (agrees : c.Agrees) (move : Move κ ε) : (c.step move).Agrees ↔ c.Spared move := by
  cases move with
  | campaign answer => exact campaign_agrees_iff answer
  | tick answer => exact iff_of_true (tick_agrees agrees answer) trivial
  | stop => exact iff_of_true c.stepDown_agrees trivial
  | onElected callback | onRevoked callback => exact iff_of_true agrees trivial

lemma revokes_tick (agrees : c.Agrees) (answer : Except ε (Record × Bool)) : c.Revokes (.tick answer : Move κ ε) := by
  intro flag ended
  have leads := agrees.mp flag
  obtain ⟨released,fired,signalled⟩ := stepDown_revokes leads
  have within : ∀ effect ∈ c.stepDown.1,effect ∈ c.ask :: c.stepDown.1 ++ [.reset c.cfg.retryInterval] := by
    intro effect member
    exact List.mem_append_left _ (List.mem_cons_of_mem _ member)
  have fails := And.intro (within _ released) (And.intro (fun callback member => within _ (fired callback member)) signalled)
  simp only [step,perform,tick,if_pos leads] at ended ⊢
  rcases answer with e | ⟨record,renewed⟩
  · exact fails
  · cases renewed with
    | false => exact fails
    | true =>
      -- a renewal that is answered with the lease ends nothing
      rcases ended with unset | left
      · cases flag.symm.trans unset
      · exact absurd leads left

lemma revokes_step (agrees : c.Agrees) (move : Move κ ε) : c.Revokes move := by
  cases move with
  | campaign answer => trivial
  | tick answer => exact revokes_tick agrees answer
  | stop =>
    intro flag _
    exact stepDown_revokes (agrees.mp flag)
  | onElected callback | onRevoked callback => trivial

end Candidate

/-- Over any moves of a new candidate, with any answers of the coordinator, the flag
agrees with the state and the loop revokes each leadership that it ends, exactly if no
candidate that leads gets an error when it campaigns. -/
theorem flag_agrees_iff (id : String) (cfg : Config) (moves : List (Move κ ε)) :
    Along Candidate.step (fun c move => (c.step move).Agrees ∧ c.Revokes move) (newCandidate id cfg) moves ↔
      Along Candidate.step Candidate.Spared (newCandidate id cfg : Candidate κ) moves := by
  apply Along.congr (P := Candidate.Agrees)
  · intro c move agrees spared
    exact (Candidate.agrees_step_iff agrees move).mpr spared
  · intro c move agrees
    rw [and_iff_left (Candidate.revokes_step agrees move)]
    exact Candidate.agrees_step_iff agrees move
  · apply Candidate.agrees_of_follower _ rfl
    intro leads
    cases leads

/-- A leader that campaigns again and gets an error keeps the flag. -/
theorem error_keeps_flag : ¬ Along Candidate.step (fun c move => (c.step move).Agrees ∧ c.Revokes move)
    (newCandidate "a" defaultConfig : Candidate Unit)
    ([.campaign (.ok (⟨"a",1,1⟩,true)),.campaign (.error ())] : List (Move Unit Unit)) := by
  rintro ⟨-,⟨agrees,-⟩,-⟩
  cases agrees.mp rfl

end Tempest.Leader
