import Mathlib.Tactic.Linarith
import Tempest.Types
import Tempest.Lib.Interaction
import Tempest.Lib.Counter

/-! The in-memory lease coordinator of `internal/leader`. Every call holds its lock, so a
history is a sequence of calls, each with the instant that it reads. Next to the
coordinator stand the candidates to which a term was granted, the latest first. -/
open List
namespace Tempest.Leader
open Interaction Counter

structure Record where
  leaderID : String := ""
  term : UInt64 := 0
  expiresAt : Time := 0
  deriving DecidableEq

inductive Sentinel
  | notLeader
  deriving DecidableEq

def Sentinel.text : Sentinel → String
  | .notLeader => "leader: current instance is not the elected leader"

structure InMemCoordinator where
  record : Record := {}
  deriving DecidableEq

namespace InMemCoordinator

def Held (c : InMemCoordinator) (candidateID : String) (now : Time) : Prop :=
  c.record.leaderID ≠ "" ∧ c.record.leaderID ≠ candidateID ∧ now < c.record.expiresAt

instance (c : InMemCoordinator) (candidateID : String) (now : Time) : Decidable (c.Held candidateID now) :=
  inferInstanceAs (Decidable (_ ∧ _ ∧ _))

def TakesOver (c : InMemCoordinator) (candidateID : String) (now : Time) : Prop :=
  c.record.leaderID ≠ candidateID ∨ c.record.expiresAt < now

instance (c : InMemCoordinator) (candidateID : String) (now : Time) : Decidable (c.TakesOver candidateID now) :=
  inferInstanceAs (Decidable (_ ∨ _))

def grant (c : InMemCoordinator) (candidateID : String) (ttl : Duration) (now : Time) : Record where
  leaderID := candidateID
  term := if c.TakesOver candidateID now then c.record.term + 1 else c.record.term
  expiresAt := now + ttl

def tryAcquireOrRenew (c : InMemCoordinator) (candidateID : String) (_term : UInt64) (ttl : Duration) (now : Time) :
    (Record × Bool) × InMemCoordinator :=
  if c.Held candidateID now then ((c.record,false),c)
  else ((c.grant candidateID ttl now,true),⟨c.grant candidateID ttl now⟩)

def getLeader (c : InMemCoordinator) (now : Time) : Except Sentinel Record :=
  if c.record.expiresAt < now then .error .notLeader else .ok c.record

def release (c : InMemCoordinator) (candidateID : String) (_term : UInt64) : InMemCoordinator :=
  if c.record.leaderID = candidateID then ⟨{ c.record with leaderID := "", expiresAt := 0 }⟩ else c

end InMemCoordinator

inductive Request
  | tryAcquireOrRenew (candidateID : String) (term : UInt64) (ttl : Duration) (now : Time)
  | getLeader (now : Time)
  | release (candidateID : String) (term : UInt64)

def Request.Named : Request → Prop
  | .tryAcquireOrRenew candidateID _ _ _ | .release candidateID _ => candidateID ≠ ""
  | .getLeader _ => True

def Request.instant : Request → Option Time
  | .tryAcquireOrRenew _ _ _ now | .getLeader now => some now
  | .release _ _ => none

structure Annals where
  coordinator : InMemCoordinator := {}
  grants : List (String × UInt64) := []

namespace Annals

def step (a : Annals) : Request → Annals
  | .tryAcquireOrRenew candidateID term ttl now =>
    let answer := a.coordinator.tryAcquireOrRenew candidateID term ttl now
    ⟨answer.2,if answer.1.2 then (candidateID,answer.1.1.term) :: a.grants else a.grants⟩
  | .getLeader _ => a
  | .release candidateID term => { a with coordinator := a.coordinator.release candidateID term }

def Rises (a : Annals) (r : Request) : Prop := a.coordinator.record.term ≤ (a.step r).coordinator.record.term

def OneHolder (a : Annals) : Prop := ∀ g ∈ a.grants, ∀ h ∈ a.grants, g.2 = h.2 → g.1 = h.1

def Free (a : Annals) : Request → Prop
  | .tryAcquireOrRenew candidateID term ttl now =>
    (a.coordinator.tryAcquireOrRenew candidateID term ttl now).1.2 = true →
      ¬ (a.coordinator.record.leaderID ≠ "" ∧ a.coordinator.record.leaderID ≠ candidateID ∧
        now < a.coordinator.record.expiresAt)
  | .getLeader _ | .release _ _ => True

def Counts (a : Annals) : Request → Prop
  | .tryAcquireOrRenew candidateID _ _ now =>
    ¬ a.coordinator.Held candidateID now → a.coordinator.TakesOver candidateID now →
      a.coordinator.record.term + 1 ≠ 0
  | .getLeader _ | .release _ _ => True

/-- The terms of the grants are up to the current one, and all grants of the current one
are to its leader, if it has not released the lease. -/
structure Sound (a : Annals) : Prop where
  bounded : ∀ g ∈ a.grants, g.2 ≤ a.coordinator.record.term
  holder : ∀ g ∈ a.grants, g.2 = a.coordinator.record.term →
    a.coordinator.record.leaderID = "" ∨ a.coordinator.record.leaderID = g.1
  unique : a.OneHolder

variable {a : Annals} {candidateID : String} {term : UInt64} {ttl : Duration} {now : Time}

lemma step_held (held : a.coordinator.Held candidateID now) :
    a.step (.tryAcquireOrRenew candidateID term ttl now) = a := by
  simp [step,InMemCoordinator.tryAcquireOrRenew,held]

lemma step_granted (free : ¬ a.coordinator.Held candidateID now) :
    a.step (.tryAcquireOrRenew candidateID term ttl now) = ⟨⟨a.coordinator.grant candidateID ttl now⟩,
        (candidateID,(a.coordinator.grant candidateID ttl now).term) :: a.grants⟩ := by
  simp [step,InMemCoordinator.tryAcquireOrRenew,free]

variable (r : Request)

lemma rises_step (counts : a.Counts r) : a.Rises r := by
  rw [Rises]
  cases r with
  | tryAcquireOrRenew candidateID term ttl now =>
    by_cases held : a.coordinator.Held candidateID now
    · rw [step_held held]
      exact UInt64.le_refl _
    · rw [step_granted held]
      simp only [InMemCoordinator.grant]
      split_ifs with takes
      · exact UInt64.le_of_lt (lt_next (counts held takes))
      · exact UInt64.le_refl _
  | getLeader now => exact UInt64.le_refl _
  | release candidateID term =>
    simp only [step,InMemCoordinator.release]
    split_ifs
    all_goals exact UInt64.le_refl _

lemma Sound.granted (sound : a.Sound) (named : candidateID ≠ "") (free : ¬ a.coordinator.Held candidateID now)
    (counts : a.Counts (.tryAcquireOrRenew candidateID term ttl now)) (g : String × UInt64) (member : g ∈ a.grants) :
    g.2 ≤ (a.coordinator.grant candidateID ttl now).term ∧
      (g.2 = (a.coordinator.grant candidateID ttl now).term → g.1 = candidateID) := by
  have bounded := sound.bounded g member
  simp only [InMemCoordinator.grant]
  split_ifs with takes
  · have next := lt_next (counts free takes)
    refine ⟨UInt64.le_of_lt (UInt64.lt_of_le_of_lt bounded next),?_⟩
    intro same
    rw [same] at bounded
    exact absurd next (UInt64.not_lt.mpr bounded)
  · refine ⟨bounded,?_⟩
    intro same
    have leads : a.coordinator.record.leaderID = candidateID := by
      by_contra differs
      exact takes (.inl differs)
    rcases sound.holder g member same with blank | holds
    · exact absurd (leads.symm.trans blank) named
    · exact holds.symm.trans leads

lemma sound_step (named : r.Named) (counts : a.Counts r) (sound : a.Sound) : (a.step r).Sound := by
  cases r with
  | tryAcquireOrRenew candidateID term ttl now =>
    by_cases held : a.coordinator.Held candidateID now
    · rw [step_held held]
      exact sound
    · have granted := sound.granted named held counts
      rw [step_granted held]
      refine ⟨?_,?_,?_⟩
      · intro g member
        rcases mem_cons.mp member with rfl | earlier
        · exact UInt64.le_refl _
        · exact (granted g earlier).1
      · intro g member same
        rcases mem_cons.mp member with rfl | earlier
        · exact .inr rfl
        · exact .inr ((granted g earlier).2 same).symm
      · intro g first h second same
        rcases mem_cons.mp first with rfl | earlier <;> rcases mem_cons.mp second with rfl | before
        · rfl
        · exact ((granted h before).2 same.symm).symm
        · exact (granted g earlier).2 same
        · exact sound.unique g earlier h before same
  | getLeader now => exact sound
  | release candidateID term =>
    simp only [step,InMemCoordinator.release]
    split_ifs with leads
    · exact ⟨sound.bounded,fun _ _ _ => .inl rfl,sound.unique⟩
    · exact sound

lemma free_step (a : Annals) (r : Request) : a.Free r := by
  cases r with
  | tryAcquireOrRenew candidateID term ttl now =>
    intro granted other
    have held : a.coordinator.Held candidateID now := other
    rw [InMemCoordinator.tryAcquireOrRenew,if_pos held] at granted
    cases granted
  | getLeader now | release candidateID term => trivial

lemma sound_fresh : Sound {} := by
  refine ⟨?_,?_,?_⟩
  all_goals
    intro g member
    cases member

end Annals

/-- Over any history of calls by candidates with a name, and whatever the clock shows,
the term never falls, no term is granted to two candidates, and the lease is granted
only where it is free, as long as no term is begun after the last number. -/
theorem one_leader_per_term (requests : List Request) (named : ∀ r ∈ requests, r.Named)
    (counts : Along Annals.step Annals.Counts {} requests) :
    Along Annals.step Annals.Rises {} requests ∧ Throughout Annals.step Annals.OneHolder {} requests ∧
      Along Annals.step Annals.Free {} requests := by
  refine ⟨?_,?_,?_⟩
  · apply counts.weaken (P := fun _ => True) (fun _ _ _ _ => trivial) _ trivial
    intro a r _ counts
    exact Annals.rises_step r counts
  · have sound : Throughout Annals.step Annals.Sound {} requests := by
      apply ((Along.of_forall named ({} : Annals)).and counts).throughout _ Annals.sound_fresh
      intro a r sound fit
      exact Annals.sound_step r fit.1 fit.2 sound
    exact sound.mono (fun _ sound => sound.unique)
  · exact Along.always (P := fun _ => True) (fun _ _ _ => trivial) (fun a r _ => a.free_step r) trivial requests

theorem renewal_per_term : let requests : List Request :=
      [.tryAcquireOrRenew "a" 0 10 1,.tryAcquireOrRenew "a" 1 10 12,.release "a" 2,.tryAcquireOrRenew "b" 0 10 13]
    (Along Annals.step Annals.Rises {} requests ∧ Throughout Annals.step Annals.OneHolder {} requests ∧
      Along Annals.step Annals.Free {} requests) ∧ (requests.foldl Annals.step {}).grants = [("b",3),("a",2),("a",1)] := by
  refine ⟨one_leader_per_term _ ?_ ?_,by decide⟩
  · simp [Request.Named]
  · refine ⟨?_,?_,trivial,?_,trivial⟩
    all_goals
      intro _ _
      decide

def expiring (n : Nat) : List Request :=
  (List.range n).map (fun i => .tryAcquireOrRenew "a" 0 1 (2 * Int.ofNat i))

variable (n : Nat)

lemma expiring_succ : expiring (n + 1) = expiring n ++ [.tryAcquireOrRenew "a" 0 1 (2 * Int.ofNat n)] := by
  rw [expiring,range_succ,map_append]
  rfl

lemma expiring_begins (a : Annals) (now : Time) (ended : a.coordinator.record.leaderID = "" ∨
      a.coordinator.record.leaderID = "a" ∧ a.coordinator.record.expiresAt < now) :
    (a.step (.tryAcquireOrRenew "a" 0 1 now)).coordinator.record = ⟨"a",a.coordinator.record.term + 1,now + 1⟩ := by
  have free : ¬ a.coordinator.Held "a" now := by
    rintro ⟨proper,other,-⟩
    rcases ended with blank | ⟨own,-⟩
    · exact proper blank
    · exact other own
  have takes : a.coordinator.TakesOver "a" now := by
    rcases ended with blank | ⟨-,past⟩
    · left
      rw [blank]
      decide
    · exact .inr past
  rw [Annals.step_granted free]
  simp only [InMemCoordinator.grant,if_pos takes]

lemma expiring_record (n : Nat) : let record := ((expiring n).foldl Annals.step {}).coordinator.record
    record.term = UInt64.ofNat n ∧
      (record.leaderID = "" ∨ record.leaderID = "a" ∧ record.expiresAt < 2 * Int.ofNat n) := by
  induction n with
  | zero => exact ⟨rfl,.inl rfl⟩
  | succ n ih =>
    rw [expiring_succ,foldl_append]
    simp only [foldl_cons,foldl_nil]
    rw [expiring_begins _ _ ih.2,ih.1]
    refine ⟨(UInt64.ofNat_add n 1).symm,.inr ⟨rfl,?_⟩⟩
    simp only [Int.ofNat_eq_natCast,Nat.cast_succ]
    linarith

lemma expiring_falls (last : n + 1 = 2 ^ 64) : ¬ Along Annals.step Annals.Rises {} (expiring (n + 1)) := by
  intro rises
  rw [expiring_succ,Along.append] at rises
  have record := expiring_record n
  have falls := rises.2.1
  rw [Annals.Rises,expiring_begins _ _ record.2,record.1] at falls
  have wraps : UInt64.ofNat n + 1 = 0 := by
    rw [← UInt64.toNat_inj,UInt64.toNat_add,UInt64.toNat_ofNat']
    simp only [UInt64.reduceToNat]
    omega
  rw [wraps,UInt64.le_zero_iff] at falls
  rw [falls] at wraps
  cases wraps

lemma expiring_named : ∀ r ∈ expiring n,r.Named := by
  intro r member
  obtain ⟨i,-,rfl⟩ := mem_map.mp member
  have proper : "a" ≠ "" := by decide
  exact proper

lemma expiring_ordered : ((expiring n).filterMap Request.instant).Pairwise (· ≤ ·) := by
  have instants : (expiring n).filterMap Request.instant = (List.range n).map (fun i => 2 * Int.ofNat i) := by
    rw [expiring,filterMap_map,← filterMap_eq_map]
    rfl
  rw [instants,pairwise_map]
  apply (pairwise_lt_range (n := n)).imp
  intro i j less
  simp only [Int.ofNat_eq_natCast]
  linarith [Int.ofNat_lt.mpr less]

/-- The term wraps around. -/
theorem term_wraps_around : (∀ r ∈ expiring 18446744073709551616, r.Named) ∧
    ((expiring 18446744073709551616).filterMap Request.instant).Pairwise (· ≤ ·) ∧
    ¬ Along Annals.step Annals.Rises {} (expiring 18446744073709551616) :=
  ⟨expiring_named _,expiring_ordered _,expiring_falls 18446744073709551615 (by norm_num)⟩

end Tempest.Leader
