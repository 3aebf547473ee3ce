import Tempest.TokenGenerator

/-! The generator of `internal/fencing` that counts with atomic operations, run next to
the one with the lock. A counter is made, with epoch 1, by whichever call names its
resource first. -/
namespace Tempest.Fencing
open Interaction

structure ResourceCounter where
  counter : UInt64 := 0
  epoch : UInt64 := 0

structure CASTokenGenerator where
  resources : String → Option ResourceCounter := fun _ => none

namespace CASTokenGenerator

def getOrCreateCounter (g : CASTokenGenerator) (resource : String) : ResourceCounter :=
  (g.resources resource).getD { epoch := 1 }

def store (g : CASTokenGenerator) (resource : String) (rc : ResourceCounter) : CASTokenGenerator :=
  ⟨Function.update g.resources resource (some rc)⟩

def acquireFastToken (g : CASTokenGenerator) (resource owner : String) (ttl : Duration) (now : Time) :
    FencingToken × CASTokenGenerator :=
  let rc := g.getOrCreateCounter resource
  let tokNum := rc.counter + 1
  (⟨resource,tokNum,owner,rc.epoch,now,now + lifetime ttl⟩,g.store resource { rc with counter := tokNum })

def advanceEpoch (g : CASTokenGenerator) (resource : String) : UInt64 × CASTokenGenerator :=
  let rc := g.getOrCreateCounter resource
  (rc.epoch + 1,g.store resource { rc with epoch := rc.epoch + 1 })

def perform (g : CASTokenGenerator) (now : Time) : Call → Answer × CASTokenGenerator
  | .acquire resource owner ttl =>
    let issued := g.acquireFastToken resource owner ttl now
    (.token issued.1,issued.2)
  | .advance resource =>
    let begun := g.advanceEpoch resource
    (.epoch resource begun.1,begun.2)

end CASTokenGenerator

def Answer.content : Answer → (String × String × UInt64 × UInt64) ⊕ UInt64
  | .token t => .inl (t.resource,t.owner,t.token,t.epoch)
  | .epoch _ value => .inr value

/-- A call of both generators, with the instants that they read. -/
structure Twice where
  call : Call
  locked : Time
  fast : Time

structure Twins where
  locked : TokenGenerator := {}
  fast : CASTokenGenerator := {}

namespace Twins

def step (s : Twins) (c : Twice) : Twins where
  locked := (s.locked.perform c.locked c.call).2
  fast := (s.fast.perform c.fast c.call).2

def Same (s : Twins) (c : Twice) : Prop :=
  (s.locked.perform c.locked c.call).1.content = (s.fast.perform c.fast c.call).1.content

end Twins

/-- An epoch is begun only for a resource with a token, and a number that wraps around
to 0 is followed by a token only in epoch 1. -/
def Settled (g : TokenGenerator) : Call → Prop
  | .acquire resource _ _ =>
    (g.activeTokens resource).isSome → g.lastToken resource = 0 → g.epochs resource = 1
  | .advance resource => (g.activeTokens resource).isSome

/-- The counters are those of the resources with a token, and hold their number and
their epoch. -/
inductive Twins.MatchedAt (s : Twins) (r : String) : Prop
  | unknown (missing : s.fast.resources r = none) (unissued : s.locked.activeTokens r = none)
      (number : s.locked.lastToken r = 0) (epoch : s.locked.epochs r = 0)
  | known (t : FencingToken) (counter : s.fast.resources r = some ⟨s.locked.lastToken r,s.locked.epochs r⟩)
      (active : s.locked.activeTokens r = some t)

namespace Twins

variable {s : Twins} {resource owner : String} {ttl : Duration}

lemma acquire_contents (locked fast : Time) : s.Same ⟨.acquire resource owner ttl,locked,fast⟩ ↔
      s.locked.lastToken resource = (s.fast.getOrCreateCounter resource).counter ∧
        (s.locked.draw resource owner ttl locked).epoch = (s.fast.getOrCreateCounter resource).epoch := by
  simp [Same,TokenGenerator.perform,CASTokenGenerator.perform,TokenGenerator.acquireToken,
    CASTokenGenerator.acquireFastToken,Answer.content,TokenGenerator.draw]

lemma advance_contents (locked fast : Time) : s.Same ⟨.advance resource,locked,fast⟩ ↔
      s.locked.epochs resource = (s.fast.getOrCreateCounter resource).epoch := by
  simp [Same,TokenGenerator.perform,CASTokenGenerator.perform,TokenGenerator.nextEpoch,
    CASTokenGenerator.advanceEpoch,Answer.content]

lemma same_acquire (matched : s.MatchedAt resource) (locked fast : Time) :
    s.Same ⟨.acquire resource owner ttl,locked,fast⟩ ↔ Settled s.locked (.acquire resource owner ttl) := by
  rw [acquire_contents,draw_epoch,CASTokenGenerator.getOrCreateCounter]
  cases matched with
  | unknown missing unissued number epoch => simp [missing,number,Settled,unissued]
  | known t counter active =>
    simp only [counter,Option.getD_some,Settled,active,Option.isSome_some,true_and,true_implies]
    constructor
    · intro same first
      rw [← same,if_pos first]
    · intro settled
      split_ifs with first
      · exact (settled first).symm
      · rfl

lemma same_advance (matched : s.MatchedAt resource) (locked fast : Time) :
    s.Same ⟨.advance resource,locked,fast⟩ ↔ Settled s.locked (.advance resource) := by
  rw [advance_contents,CASTokenGenerator.getOrCreateCounter]
  cases matched with
  | unknown missing unissued number epoch => simp [missing,epoch,Settled,unissued]
  | known t counter active => simp [counter,Settled,active]

lemma same_iff (matched : ∀ r,s.MatchedAt r) (c : Twice) : s.Same c ↔ Settled s.locked c.call := by
  obtain ⟨call,locked,fast⟩ := c
  cases call with
  | acquire resource owner ttl => exact same_acquire (matched resource) locked fast
  | advance resource => exact same_advance (matched resource) locked fast

lemma MatchedAt.untouched {after : Twins} {r : String} (matched : s.MatchedAt r)
    (resources : after.fast.resources r = s.fast.resources r)
    (activeTokens : after.locked.activeTokens r = s.locked.activeTokens r)
    (lastToken : after.locked.lastToken r = s.locked.lastToken r)
    (epochs : after.locked.epochs r = s.locked.epochs r) : after.MatchedAt r := by
  cases matched with
  | unknown missing unissued number epoch =>
    exact .unknown (resources.trans missing) (activeTokens.trans unissued) (lastToken.trans number) (epochs.trans epoch)
  | known t counter active =>
    refine .known t ?_ (activeTokens.trans active)
    rw [resources,counter,lastToken,epochs]

lemma matched_acquire (matched : ∀ r,s.MatchedAt r) (locked fast : Time)
    (same : s.Same ⟨.acquire resource owner ttl,locked,fast⟩) (r : String) :
    (s.step ⟨.acquire resource owner ttl,locked,fast⟩).MatchedAt r := by
  by_cases named : r = resource
  · cases named
    obtain ⟨number,epoch⟩ := (acquire_contents locked fast).mp same
    refine .known (s.locked.draw resource owner ttl locked) ?_ ((acquire_activeTokens ..).trans (if_pos rfl))
    have numbers : (s.step ⟨.acquire resource owner ttl,locked,fast⟩).locked.lastToken resource =
        (s.fast.getOrCreateCounter resource).counter + 1 := by
      rw [← number]
      exact (acquire_lastToken ..).trans (if_pos rfl)
    have epochs : (s.step ⟨.acquire resource owner ttl,locked,fast⟩).locked.epochs resource =
        (s.fast.getOrCreateCounter resource).epoch := by
      rw [← epoch]
      exact (acquire_epochs ..).trans (if_pos rfl)
    rw [numbers,epochs]
    exact Function.update_self resource _ s.fast.resources
  · apply (matched r).untouched
    · exact Function.update_of_ne named _ _
    · exact (acquire_activeTokens ..).trans (if_neg named)
    · exact (acquire_lastToken ..).trans (if_neg named)
    · exact (acquire_epochs ..).trans (if_neg named)

lemma matched_advance (matched : ∀ r,s.MatchedAt r) (locked fast : Time)
    (settled : Settled s.locked (.advance resource)) (r : String) :
    (s.step ⟨.advance resource,locked,fast⟩).MatchedAt r := by
  by_cases named : r = resource
  · cases named
    cases matched resource with
    | unknown missing unissued number epoch =>
      rw [Settled,unissued] at settled
      cases settled
    | known t counter active =>
      refine .known t ?_ active
      simp [step,TokenGenerator.perform,CASTokenGenerator.perform,TokenGenerator.nextEpoch,
        CASTokenGenerator.advanceEpoch,CASTokenGenerator.store,CASTokenGenerator.getOrCreateCounter,counter]
  · apply (matched r).untouched
    · exact Function.update_of_ne named _ _
    · rfl
    · rfl
    · exact Function.update_of_ne named _ _

lemma matched_step (matched : ∀ r,s.MatchedAt r) (c : Twice) (settled : Settled s.locked c.call) (r : String) :
    (s.step c).MatchedAt r := by
  obtain ⟨call,locked,fast⟩ := c
  cases call with
  | acquire resource owner ttl =>
    exact matched_acquire matched locked fast ((same_acquire (matched resource) locked fast).mpr settled) r
  | advance resource => exact matched_advance matched locked fast settled r

end Twins

/-- Over any sequence of calls, and whatever their clocks show, the two generators give
the same answers exactly if every call is settled in the state of the locked one. -/
theorem generators_agree_iff (calls : List Twice) :
    Along Twins.step Twins.Same {} calls ↔ Along Twins.step (fun s c => Settled s.locked c.call) {} calls := by
  apply Along.congr (P := fun s => ∀ r,s.MatchedAt r)
  · intro s c matched settled
    exact Twins.matched_step matched c settled
  · intro s c matched
    exact Twins.same_iff matched c
  · intro r
    exact .unknown rfl rfl rfl rfl

/-- The first epoch that is begun is 1 with the lock and 2 without it. -/
theorem first_epoch_differs : ¬ Along Twins.step Twins.Same {} [⟨.advance "r",0,0⟩] := by
  rintro ⟨same,-⟩
  have values := Sum.inr.inj same
  exact absurd values (by decide)

end Tempest.Fencing
