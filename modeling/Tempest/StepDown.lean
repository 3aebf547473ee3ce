import Tempest.Candidate

/-! Any number of candidates over one in-memory coordinator. `Campaign` holds the lock of
its candidate from the call of the coordinator to the write of the flag; the loop of a
candidate takes that lock to look at the state, to keep the term of a renewal and to
clear the flag, but calls the coordinator without it. A candidate is named by its id,
which is unique. -/
namespace Tempest.Leader
open Interaction

/-- Where the loop of a candidate stands: between two ticks, before a renewal, after its
answer, or between the two parts of a step-down. -/
inductive Loop
  | idle
  | renewing
  | answered (record : Record) (renewed : Bool)
  | releasing (term : UInt64)

def Loop.isReleasing : Loop → Bool
  | .releasing _ => true
  | .idle | .renewing | .answered .. => false

/-- A candidate with the answer of a `Campaign` call that is under way, and its loop. -/
structure Node where
  candidate : Candidate Unit
  campaign : Option (Record × Bool) := none
  loop : Loop := .idle

structure Cluster where
  coordinator : InMemCoordinator := {}
  nodes : String → Node

def newCluster (cfg : String → Config) : Cluster := { nodes := fun id => { candidate := newCandidate id (cfg id) } }

inductive Action
  | ask (id : String) (now : Time)
  | answer (id : String)
  | look (id : String)
  | renew (id : String) (now : Time)
  | keep (id : String)
  | stop (id : String)
  | release (id : String)

def Node.stepDown (n : Node) : Node :=
  { n with
    candidate := n.candidate.yield
    loop := if n.candidate.state = .leader then .releasing n.candidate.term else .idle }

namespace Cluster

def set (s : Cluster) (id : String) (n : Node) : Cluster := { s with nodes := Function.update s.nodes id n }

def tryAcquireOrRenew (s : Cluster) (id : String) (now : Time) : (Record × Bool) × InMemCoordinator :=
  s.coordinator.tryAcquireOrRenew id (s.nodes id).candidate.term (s.nodes id).candidate.cfg.leaseDuration now

/-- A loop that looks at the state and does not lead calls `Campaign`. What would need
the lock of the candidate waits while a `Campaign` call holds it. -/
def act (s : Cluster) : Action → Cluster
  | .ask id now =>
    let n := s.nodes id
    match n.campaign with
    | some _ => s
    | none =>
      let result := s.tryAcquireOrRenew id now
      { s with coordinator := result.2 }.set id
        { n with candidate := { n.candidate with state := .candidate }, campaign := some result.1 }
  | .answer id =>
    let n := s.nodes id
    match n.campaign with
    | some answer =>
      s.set id { n with
        candidate := (n.candidate.campaign (.ok answer : Except Unit (Record × Bool))).2, campaign := none }
    | none => s
  | .look id =>
    let n := s.nodes id
    match n.campaign, n.loop with
    | none, .idle => if n.candidate.state = .leader then s.set id { n with loop := .renewing } else s
    | _, _ => s
  | .renew id now =>
    let n := s.nodes id
    match n.loop with
    | .renewing =>
      let result := s.tryAcquireOrRenew id now
      { s with coordinator := result.2 }.set id { n with loop := .answered result.1.1 result.1.2 }
    | _ => s
  | .keep id =>
    let n := s.nodes id
    match n.campaign, n.loop with
    | none, .answered record true =>
      s.set id { n with candidate := { n.candidate with term := record.term }, loop := .idle }
    | none, .answered _ false => s.set id n.stepDown
    | _, _ => s
  | .stop id =>
    let n := s.nodes id
    match n.campaign, n.loop with
    | none, .idle => s.set id n.stepDown
    | _, _ => s
  | .release id =>
    let n := s.nodes id
    match n.loop with
    | .releasing term =>
      { s with coordinator := s.coordinator.release id term }.set id
        { n with candidate := n.candidate.triggerRevoked.2, loop := .idle }
    | _ => s

def AtMostOne (s : Cluster) : Prop :=
  ∀ i j, (s.nodes i).candidate.isLeader = true → (s.nodes j).candidate.isLeader = true → i = j

def Unexpired (s : Cluster) : Action → Prop
  | .ask _ now | .renew _ now => s.coordinator.record.leaderID ≠ "" → now < s.coordinator.record.expiresAt
  | .answer _ | .look _ | .keep _ | .stop _ | .release _ => True

/-- A candidate with a name calls `Campaign`, and not between the two parts of its own
step-down. -/
def Orderly (s : Cluster) : Action → Prop
  | .ask id _ => id ≠ "" ∧ (s.nodes id).loop.isReleasing = false
  | .answer _ | .look _ | .renew .. | .keep _ | .stop _ | .release _ => True

instance (s : Cluster) : ∀ a, Decidable (s.Unexpired a)
  | .ask .. | .renew .. => inferInstanceAs (Decidable (_ → _))
  | .answer _ | .look _ | .keep _ | .stop _ | .release _ => .isTrue trivial

instance (s : Cluster) : ∀ a, Decidable (s.Orderly a)
  | .ask .. => inferInstanceAs (Decidable (_ ∧ _))
  | .answer _ | .look _ | .renew .. | .keep _ | .stop _ | .release _ => .isTrue trivial

end Cluster

def Node.Claims (n : Node) : Prop := n.candidate.isLeader = true ∨ ∃ record, n.campaign = some (record,true)

lemma Node.stepDown_quiet {n : Node} (free : n.campaign = none) : ¬ n.stepDown.Claims := by
  rintro (flag | ⟨record,granted⟩)
  · cases flag
  · cases free.symm.trans granted

namespace Cluster

/-- Who claims to lead holds the lease, and who is about to release it does not claim. -/
structure Kept (s : Cluster) : Prop where
  owns : ∀ i, (s.nodes i).Claims → i ≠ "" ∧ s.coordinator.record.leaderID = i
  quiet : ∀ i, (s.nodes i).loop.isReleasing = true → ¬ (s.nodes i).Claims

variable {s : Cluster} {id : String} {n : Node} {now : Time}

lemma Kept.atMostOne (kept : s.Kept) : s.AtMostOne := by
  intro i j first second
  exact (kept.owns i (.inl first)).2.symm.trans (kept.owns j (.inl second)).2

lemma Kept.set (kept : s.Kept) (c : InMemCoordinator)
    (others : ∀ i, i ≠ id → i ≠ "" → s.coordinator.record.leaderID = i → c.record.leaderID = i)
    (owns : n.Claims → id ≠ "" ∧ c.record.leaderID = id) (quiet : n.loop.isReleasing = true → ¬ n.Claims) :
    ({ s with coordinator := c }.set id n).Kept := by
  constructor
  · intro i claims
    simp only [Cluster.set,Function.update_apply] at claims ⊢
    split_ifs at claims with same
    · rw [same]
      exact owns claims
    · obtain ⟨named,holds⟩ := kept.owns i claims
      exact ⟨named,others i same named holds⟩
  · intro i
    simp only [Cluster.set,Function.update_apply]
    split_ifs
    · exact quiet
    · exact kept.quiet i

lemma Kept.set_node (kept : s.Kept) (owns : n.Claims → (s.nodes id).Claims)
    (quiet : n.loop.isReleasing = true → ¬ n.Claims) : (s.set id n).Kept :=
  kept.set s.coordinator (fun _ _ _ holds => holds) (fun claims => kept.owns id (owns claims)) quiet

lemma acquire_cases (id : String)
    (unexpired : s.coordinator.record.leaderID ≠ "" → now < s.coordinator.record.expiresAt) :
    (s.tryAcquireOrRenew id now).1.2 = false ∧ (s.tryAcquireOrRenew id now).2 = s.coordinator ∨
    (s.tryAcquireOrRenew id now).2.record.leaderID = id ∧
      ∀ i, i ≠ id → i ≠ "" → s.coordinator.record.leaderID ≠ i := by
  rw [tryAcquireOrRenew,InMemCoordinator.tryAcquireOrRenew]
  split_ifs with held
  · exact .inl ⟨rfl,rfl⟩
  · refine .inr ⟨rfl,?_⟩
    rintro i other named rfl
    exact held ⟨named,other,unexpired named⟩

section
variable (kept : s.Kept)
include kept

lemma Kept.acquire (unexpired : s.coordinator.record.leaderID ≠ "" → now < s.coordinator.record.expiresAt)
    (owns : n.Claims → (s.nodes id).Claims ∨ id ≠ "" ∧ (s.tryAcquireOrRenew id now).1.2 = true)
    (quiet : n.loop.isReleasing = true → ¬ n.Claims) :
    ({ s with coordinator := (s.tryAcquireOrRenew id now).2 }.set id n).Kept := by
  rcases acquire_cases id unexpired with ⟨refused,same⟩ | ⟨granted,free⟩
  · rw [same]
    apply kept.set_node _ quiet
    intro claims
    rcases owns claims with before | ⟨_,answer⟩
    · exact before
    · cases refused.symm.trans answer
  · apply kept.set _ _ _ quiet
    · intro i other named holds
      exact absurd holds (free i other named)
    · intro claims
      refine ⟨?_,granted⟩
      rcases owns claims with before | ⟨named,_⟩
      · exact (kept.owns id before).1
      · exact named

lemma kept_ask (unexpired : s.Unexpired (.ask id now)) (orderly : s.Orderly (.ask id now)) :
    (s.act (.ask id now)).Kept := by
  cases busy : (s.nodes id).campaign with
  | some answer => simpa only [act,busy] using kept
  | none =>
    simp only [act,busy]
    apply kept.acquire unexpired
    · rintro (flag | ⟨record,granted⟩)
      · exact .inl (.inl flag)
      · exact .inr ⟨orderly.1,congrArg Prod.snd (Option.some.inj granted)⟩
    · intro releasing
      cases orderly.2.symm.trans releasing

lemma kept_answer : (s.act (.answer id)).Kept := by
  cases busy : (s.nodes id).campaign with
  | none => simpa only [act,busy] using kept
  | some answer =>
    obtain ⟨record,acquired⟩ := answer
    simp only [act,busy]
    cases acquired with
    | true =>
      have claims : (s.nodes id).Claims := .inr ⟨record,busy⟩
      apply kept.set_node (fun _ => claims)
      intro releasing
      exact absurd claims (kept.quiet id releasing)
    | false =>
      have quiet : ¬ Node.Claims ⟨((s.nodes id).candidate.campaign (.ok (record,false) : Except Unit _)).2,none,
          (s.nodes id).loop⟩ := by
        rintro (flag | ⟨_,granted⟩)
        · cases flag
        · cases granted
      exact kept.set_node (fun claims => absurd claims quiet) (fun _ => quiet)

lemma kept_stepDown (free : (s.nodes id).campaign = none) : (s.set id (s.nodes id).stepDown).Kept :=
  kept.set_node (fun claims => absurd claims (Node.stepDown_quiet free)) (fun _ => Node.stepDown_quiet free)

lemma kept_look : (s.act (.look id)).Kept := by
  simp only [act]
  split
  · split_ifs
    · apply kept.set_node
      · exact fun claims => claims
      · exact fun releasing => by cases releasing
    · exact kept
  · exact kept

lemma kept_renew (unexpired : s.Unexpired (.renew id now)) : (s.act (.renew id now)).Kept := by
  simp only [act]
  split
  · apply kept.acquire unexpired
    · exact fun claims => .inl claims
    · exact fun releasing => by cases releasing
  · exact kept

lemma kept_keep : (s.act (.keep id)).Kept := by
  simp only [act]
  split
  · apply kept.set_node
    · rintro (flag | granted)
      · exact .inl flag
      · exact .inr granted
    · exact fun releasing => by cases releasing
  · rename_i free _
    exact kept_stepDown kept free
  · exact kept

lemma kept_stop : (s.act (.stop id)).Kept := by
  simp only [act]
  split
  · rename_i free _
    exact kept_stepDown kept free
  · exact kept

lemma kept_release : (s.act (.release id)).Kept := by
  simp only [act]
  split
  · rename_i term releasing
    have quiet : ¬ Node.Claims ⟨(s.nodes id).candidate.triggerRevoked.2,(s.nodes id).campaign,.idle⟩ := by
      apply kept.quiet id
      rw [releasing]
      rfl
    apply kept.set
    · intro i other named holds
      rw [InMemCoordinator.release,if_neg]
      · exact holds
      · rw [holds]
        exact other
    · intro claims
      exact absurd claims quiet
    · intro _
      exact quiet
  · exact kept

end

lemma kept_act (a : Action) (kept : s.Kept) (fits : s.Unexpired a ∧ s.Orderly a) : (s.act a).Kept := by
  cases a with
  | ask id now => exact kept_ask kept fits.1 fits.2
  | answer id => exact kept_answer kept
  | look id => exact kept_look kept
  | renew id now => exact kept_renew kept fits.1
  | keep id => exact kept_keep kept
  | stop id => exact kept_stop kept
  | release id => exact kept_release kept

end Cluster

/-- In every interleaving in which no lease has run out and no candidate campaigns
between the two parts of its own step-down, there is at most one leader at every point. -/
theorem one_leader_through_stepDown (cfg : String → Config) (actions : List Action)
    (unexpired : Along Cluster.act Cluster.Unexpired (newCluster cfg) actions)
    (orderly : Along Cluster.act Cluster.Orderly (newCluster cfg) actions) :
    Throughout Cluster.act Cluster.AtMostOne (newCluster cfg) actions := by
  have start : (newCluster cfg).Kept := by
    constructor
    · rintro i (flag | ⟨_,granted⟩)
      · cases flag
      · cases granted
    · intro i releasing
      cases releasing
  have kept := (unexpired.and orderly).throughout (P := Cluster.Kept) (fun s a kept fits => Cluster.kept_act a kept fits) start
  exact kept.mono (fun _ kept => kept.atMostOne)

theorem takeover_after_release : let actions : List Action :=
      [.ask "a" 0,.answer "a",.stop "a",.release "a",.ask "b" 1,.answer "b"]
    Throughout Cluster.act Cluster.AtMostOne (newCluster (fun _ => defaultConfig)) actions ∧
      ((actions.foldl Cluster.act (newCluster (fun _ => defaultConfig))).nodes "b").candidate.isLeader = true := by
  exact ⟨one_leader_through_stepDown _ _ (by decide) (by decide),by decide⟩

/-- A campaign between the two parts of a step-down, after which the release yields a
lease that its holder still relies on. -/
def reelected : List Action :=
  [.ask "a" 0,.answer "a",.stop "a",.ask "a" 1,.answer "a",.release "a",.ask "b" 2,.answer "b"]

theorem two_leaders_after_release :
    Along Cluster.act Cluster.Unexpired (newCluster (fun _ => defaultConfig)) reelected ∧
    ¬ Throughout Cluster.act Cluster.AtMostOne (newCluster (fun _ => defaultConfig)) reelected := by
  constructor
  · decide
  · intro one
    have same := one reelected List.prefix_rfl "a" "b" (by decide) (by decide)
    exact absurd same (by decide)

end Tempest.Leader
