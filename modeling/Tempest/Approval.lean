import Mathlib.Data.Finset.Card

/-! The approval gates of `internal/approval`. A request is an object that the manager finds
by its id; a call works on the object under the object's own lock. The decision is taken
as soon as the votes so far settle it. -/
open List
namespace Tempest.Approval

inductive PolicyType
  | any | all | quorum
  | other (text : String)
  deriving DecidableEq

inductive Decision
  | pending | approved | rejected | expired
  deriving DecidableEq

inductive Failure
  | alreadyDecided | unauthorizedPerson | duplicateVote | requestNotFound
  | invalidPolicy (detail : String)
  deriving DecidableEq

def Failure.message : Failure → String
  | alreadyDecided => "approval: request has already reached final decision"
  | unauthorizedPerson => "approval: approver not in authorized group"
  | duplicateVote => "approval: approver has already voted on this request"
  | requestNotFound => "approval: approval request not found"
  | invalidPolicy detail => "approval: invalid policy configuration: " ++ detail

structure Vote where
  approverID : String
  approved : Bool
  comment : String
  votedAt : Int

structure Request where
  id : String
  ns : String
  runID : String
  stepID : String
  policy : PolicyType
  approvers : Finset String
  quorumCount : Int
  timeout : Int
  escalateTo : String
  createdAt : Int
  expiresAt : Option Int
  decision : Decision := .pending
  decidedAt : Option Int := none
  votes : List Vote := []
  escalated : Bool := false

def past (expiresAt : Option Int) (now : Int) : Bool := expiresAt.any (fun t => t < now)

namespace Request

def evaluatePolicyLocked (r : Request) : Decision :=
  let approveCount := r.votes.countP (fun v => v.approved)
  let rejectCount := r.votes.countP (fun v => !v.approved)
  let totalApprovers := r.approvers.card
  match r.policy with
  | .any => if 0 < approveCount then .approved else if rejectCount = totalApprovers then .rejected else .pending
  | .all => if 0 < rejectCount then .rejected else if approveCount = totalApprovers then .approved else .pending
  | .quorum =>
    if r.quorumCount ≤ approveCount then .approved
    else
      let remaining : Int := totalApprovers - r.votes.length
      if approveCount + remaining < r.quorumCount then .rejected else .pending
  | .other _ => .pending

def record (r : Request) (vote : Vote) : Request := { r with votes := r.votes ++ [vote] }

def settle (r : Request) (now : Int) : Request :=
  let dec := r.evaluatePolicyLocked
  if dec ≠ .pending then { r with decision := dec, decidedAt := some now } else r

def castVote (r : Request) (approverID : String) (approved : Bool) (comment : String) (now : Int) :
    Request × Decision × Option Failure :=
  if r.decision ≠ .pending then (r,r.decision,some .alreadyDecided)
  else if approverID ∉ r.approvers then (r,.pending,some .unauthorizedPerson)
  else if approverID ∈ r.votes.map Vote.approverID then (r,.pending,some .duplicateVote)
  else if past r.expiresAt now then
    ({ r with decision := .expired, decidedAt := some now },.expired,none)
  else
    let r := (r.record ⟨approverID,approved,comment,now⟩).settle now
    (r,r.decision,none)

def checkEscalation (r : Request) (now : Int) : Request × Bool :=
  if r.decision = .pending ∧ r.escalated = false ∧ r.escalateTo ≠ "" ∧ past r.expiresAt now = true then
    ({ r with escalated := true, approvers := insert r.escalateTo r.approvers },true)
  else (r,false)

end Request

/-- The requests by id, as places in the list of all objects. -/
structure Manager where
  requests : String → Option Nat := fun _ => none
  objects : List Request := []

def newRequest (id ns runID stepID : String) (policy : PolicyType) (approvers : List String)
    (quorumCount timeout : Int) (escalateTo : String) (now : Int) : Request :=
  { id, ns, runID, stepID, policy, approvers := approvers.toFinset, quorumCount, timeout, escalateTo,
    createdAt := now, expiresAt := if 0 < timeout then some (now + timeout) else none }

namespace Manager

def createRequest (m : Manager) (id ns runID stepID : String) (policy : PolicyType) (approvers : List String)
    (quorumCount timeout : Int) (escalateTo : String) (now : Int) : Except Failure (Manager × Nat) :=
  if approvers.length = 0 then .error (.invalidPolicy "at least one approver required")
  else if policy = .quorum ∧ (quorumCount ≤ 0 ∨ quorumCount > approvers.length) then
    .error (.invalidPolicy ("quorumCount must be between 1 and " ++ toString approvers.length))
  else
    let req := newRequest id ns runID stepID policy approvers quorumCount timeout escalateTo now
    .ok (⟨Function.update m.requests id (some m.objects.length),m.objects ++ [req]⟩,m.objects.length)

def locked {α : Type} (m : Manager) (requestID : String) (missing : α) (act : Request → Request × α) : Manager × α :=
  match m.requests requestID with
  | none => (m,missing)
  | some p =>
    match m.objects[p]? with
    | none => (m,missing)
    | some r => (⟨m.requests,m.objects.set p (act r).1⟩,(act r).2)

def castVote (m : Manager) (requestID approverID : String) (approved : Bool) (comment : String) (now : Int) :
    Manager × Decision × Option Failure :=
  m.locked requestID (.pending,some .requestNotFound) (fun r => r.castVote approverID approved comment now)

def checkEscalation (m : Manager) (requestID : String) (now : Int) : Manager × Bool :=
  m.locked requestID false (fun r => r.checkEscalation now)

end Manager

inductive Call
  | createRequest (id ns runID stepID : String) (policy : PolicyType) (approvers : List String)
      (quorumCount timeout : Int) (escalateTo : String) (now : Int)
  | castVote (requestID approverID : String) (approved : Bool) (comment : String) (now : Int)
  | checkEscalation (requestID : String) (now : Int)

def step (m : Manager) : Call → Manager
  | .createRequest id ns runID stepID policy approvers quorumCount timeout escalateTo now =>
    match m.createRequest id ns runID stepID policy approvers quorumCount timeout escalateTo now with
    | .ok (m',_) => m'
    | .error _ => m
  | .castVote requestID approverID approved comment now => (m.castVote requestID approverID approved comment now).1
  | .checkEscalation requestID now => (m.checkEscalation requestID now).1

/-- What a call does to one request. -/
inductive Attempt
  | vote (approverID : String) (approved : Bool) (comment : String) (now : Int)
  | escalation (now : Int)

def Request.act (r : Request) : Attempt → Request
  | .vote approverID approved comment now => (r.castVote approverID approved comment now).1
  | .escalation now => (r.checkEscalation now).1

def attempt (m : Manager) (p : Nat) : Call → Option Attempt
  | .createRequest .. => none
  | .castVote requestID approverID approved comment now =>
    if m.requests requestID = some p then some (.vote approverID approved comment now) else none
  | .checkEscalation requestID now => if m.requests requestID = some p then some (.escalation now) else none

def attempts (p : Nat) : Manager → List Call → List Attempt
  | _, [] => []
  | m, call :: rest => (attempt m p call).toList ++ attempts p (step m call) rest

lemma locked_object {α : Type} (m : Manager) {p : Nat} {r : Request} (stored : m.objects[p]? = some r)
    (requestID : String) (missing : α) (act : Request → Request × α) :
    (m.locked requestID missing act).1.objects[p]? = some (if m.requests requestID = some p then (act r).1 else r) := by
  rw [Manager.locked]
  cases found : m.requests requestID with
  | none =>
    rw [if_neg (by simp),stored]
  | some q =>
    dsimp only
    by_cases same : q = p
    · subst same
      rw [stored,if_pos rfl]
      rw [List.getElem?_set_self (List.getElem?_eq_some_iff.mp stored).1]
    · rw [if_neg (by simpa using same)]
      cases m.objects[q]? with
      | none => exact stored
      | some _ => rw [getElem?_set_ne same,stored]

lemma step_object (m : Manager) {p : Nat} {r : Request} (stored : m.objects[p]? = some r) (call : Call) :
    (step m call).objects[p]? = some ((attempt m p call).toList.foldl Request.act r) := by
  cases call with
  | createRequest id ns runID stepID policy approvers quorumCount timeout escalateTo now =>
    have inside := (List.getElem?_eq_some_iff.mp stored).1
    rw [step,Manager.createRequest]
    split_ifs
    · exact stored
    · exact stored
    · exact (getElem?_append_left inside).trans stored
  | castVote requestID approverID approved comment now =>
    rw [step,Manager.castVote,locked_object m stored,attempt]
    split_ifs
    all_goals rfl
  | checkEscalation requestID now =>
    rw [step,Manager.checkEscalation,locked_object m stored,attempt]
    split_ifs
    all_goals rfl

lemma foldl_step_object (calls : List Call) (m : Manager) {p : Nat} {r : Request} (stored : m.objects[p]? = some r) :
    (calls.foldl step m).objects[p]? = some ((attempts p m calls).foldl Request.act r) := by
  induction calls generalizing m r with
  | nil => exact stored
  | cons call rest ih =>
    rw [foldl_cons,ih (step m call) (step_object m stored call),attempts,foldl_append]

def Holds (r : Request) (choice : String → Bool) : Prop :=
  match r.policy with
  | .any => ∃ a ∈ r.approvers, choice a = true
  | .all => ∀ a ∈ r.approvers, choice a = true
  | .quorum => r.quorumCount ≤ (r.approvers.filter (fun a => choice a = true)).card
  | .other _ => False

def Follows (r : Request) (choice : String → Bool) : Attempt → Prop
  | .vote approverID approved _ now => (approverID ∈ r.approvers → approved = choice approverID) ∧ past r.expiresAt now = false
  | .escalation now => past r.expiresAt now = false

def decision (m : Manager) (p : Nat) : Option Decision := m.objects[p]?.map Request.decision

/-- Once every approver has tried to vote the decision is what the policy says of the
votes, and a decision stays. -/
structure Faithful (m : Manager) (p : Nat) (r : Request) : Prop where
  outcome : ∀ choice calls, (∀ a ∈ attempts p m calls, Follows r choice a) →
    (∀ id ∈ r.approvers, ∃ approved comment now, .vote id approved comment now ∈ attempts p m calls) →
    (decision (calls.foldl step m) p = some .approved ↔ Holds r choice) ∧
      (decision (calls.foldl step m) p = some .rejected ↔ ¬ Holds r choice)
  settled : ∀ calls more : List Call, decision (calls.foldl step m) p ≠ some .pending →
    decision ((calls ++ more).foldl step m) p = decision (calls.foldl step m) p

lemma act_of_decided {r : Request} (decided : r.decision ≠ .pending) (a : Attempt) : r.act a = r := by
  cases a with
  | vote approverID approved comment now => rw [Request.act,Request.castVote,if_pos decided]
  | escalation now => rw [Request.act,Request.checkEscalation,if_neg (fun open_ => decided open_.1)]

lemma foldl_act_of_decided {r : Request} (decided : r.decision ≠ .pending) (acts : List Attempt) :
    acts.foldl Request.act r = r := by
  induction acts with
  | nil => rfl
  | cons a rest ih => rw [foldl_cons,act_of_decided decided,ih]

section Counting

variable {start r : Request} {choice : String → Bool}

/-- The request as it was created, with votes of its approvers by their choices. -/
structure Polled (start : Request) (choice : String → Bool) (r : Request) : Prop where
  policy : r.policy = start.policy
  quorum : r.quorumCount = start.quorumCount
  approvers : r.approvers = start.approvers
  expiresAt : r.expiresAt = start.expiresAt
  distinct : (r.votes.map Vote.approverID).Nodup
  inside : ∀ v ∈ r.votes, v.approverID ∈ start.approvers ∧ v.approved = choice v.approverID

def choosing (start : Request) (choice : String → Bool) (b : Bool) : Finset String :=
  start.approvers.filter (fun a => choice a = b)

lemma choosing_card : (choosing start choice true).card + (choosing start choice false).card = start.approvers.card := by
  have split := Finset.card_filter_add_card_filter_not (s := start.approvers) (fun a => choice a = true)
  simpa [choosing] using split

lemma voters_card (polled : Polled start choice r) (b : Bool) :
    r.votes.countP (fun v => v.approved = b) = ((r.votes.filter (fun v => v.approved = b)).map Vote.approverID).toFinset.card := by
  have nodup : ((r.votes.filter (fun v => v.approved = b)).map Vote.approverID).Nodup :=
    polled.distinct.sublist (filter_sublist.map Vote.approverID)
  rw [toFinset_card_of_nodup nodup,length_map,countP_eq_length_filter]

lemma Polled.count_le (polled : Polled start choice r) (b : Bool) :
    r.votes.countP (fun v => v.approved = b) ≤ (choosing start choice b).card := by
  rw [voters_card polled b]
  apply Finset.card_le_card
  intro id voter
  obtain ⟨v,kept,rfl⟩ := mem_map.mp (mem_toFinset.mp voter)
  obtain ⟨member,same⟩ := mem_filter.mp kept
  obtain ⟨known,chosen⟩ := polled.inside v member
  rw [chosen] at same
  exact Finset.mem_filter.mpr ⟨known,of_decide_eq_true same⟩

lemma Polled.count_eq (polled : Polled start choice r) (all : ∀ id ∈ start.approvers,id ∈ r.votes.map Vote.approverID)
    (b : Bool) : r.votes.countP (fun v => v.approved = b) = (choosing start choice b).card := by
  apply le_antisymm (polled.count_le b)
  rw [voters_card polled b]
  apply Finset.card_le_card
  intro id chosen
  obtain ⟨known,same⟩ := Finset.mem_filter.mp chosen
  obtain ⟨v,member,rfl⟩ := mem_map.mp (all id known)
  refine mem_toFinset.mpr (mem_map.mpr ⟨v,mem_filter.mpr ⟨member,?_⟩,rfl⟩)
  rw [(polled.inside v member).2,same]
  exact decide_eq_true rfl

variable (votes : List Vote)

lemma countP_approved : votes.countP (fun v => v.approved) = votes.countP (fun v => v.approved = true) := by
  simp

lemma countP_rejected : votes.countP (fun v => !v.approved) = votes.countP (fun v => v.approved = false) := by
  simp

lemma countP_length :
    votes.countP (fun v => v.approved = true) + votes.countP (fun v => v.approved = false) = votes.length := by
  have split := length_eq_countP_add_countP (fun v : Vote => decide (v.approved = true)) (l := votes)
  rw [split]
  simp

lemma holds_any (policy : start.policy = .any) : Holds start choice ↔ 0 < (choosing start choice true).card := by
  rw [Holds,policy,Finset.card_pos,choosing,Finset.filter_nonempty_iff]

lemma holds_all (policy : start.policy = .all) : Holds start choice ↔ (choosing start choice false).card = 0 := by
  rw [Holds,policy,choosing]
  simp

lemma holds_quorum (policy : start.policy = .quorum) :
    Holds start choice ↔ start.quorumCount ≤ (choosing start choice true).card := by
  rw [Holds,policy]
  rfl

lemma Polled.evaluate (polled : Polled start choice r) :
    r.evaluatePolicyLocked = .pending ∨ (r.evaluatePolicyLocked = .approved ∧ Holds start choice) ∨
      (r.evaluatePolicyLocked = .rejected ∧ ¬ Holds start choice) := by
  have approvals := polled.count_le true
  have rejections := polled.count_le false
  have total : (choosing start choice true).card + (choosing start choice false).card = start.approvers.card := choosing_card
  have voted := countP_length r.votes
  rw [Request.evaluatePolicyLocked,countP_approved,countP_rejected,polled.policy,polled.approvers,polled.quorum]
  cases policy : start.policy with
  | any =>
    rw [holds_any policy]
    dsimp only
    split_ifs with some_ none_
    · exact .inr (.inl ⟨rfl,by omega⟩)
    · exact .inr (.inr ⟨rfl,by omega⟩)
    · exact .inl rfl
  | all =>
    rw [holds_all policy]
    dsimp only
    split_ifs with some_ none_
    · exact .inr (.inr ⟨rfl,by omega⟩)
    · exact .inr (.inl ⟨rfl,by omega⟩)
    · exact .inl rfl
  | quorum =>
    rw [holds_quorum policy]
    dsimp only
    split_ifs with reached lost
    · exact .inr (.inl ⟨rfl,by omega⟩)
    · exact .inr (.inr ⟨rfl,by omega⟩)
    · exact .inl rfl
  | other text => exact .inl rfl

lemma Polled.evaluate_all (polled : Polled start choice r) (known : ∀ text,start.policy ≠ .other text)
    (all : ∀ id ∈ start.approvers,id ∈ r.votes.map Vote.approverID) : r.evaluatePolicyLocked ≠ .pending := by
  have approvals := polled.count_eq all true
  have rejections := polled.count_eq all false
  have total : (choosing start choice true).card + (choosing start choice false).card = start.approvers.card := choosing_card
  have voted := countP_length r.votes
  rw [Request.evaluatePolicyLocked,countP_approved,countP_rejected,polled.policy,polled.approvers]
  cases policy : start.policy with
  | any | all =>
    dsimp only
    split_ifs with some_ none_
    · decide
    · decide
    · omega
  | quorum =>
    dsimp only
    split_ifs with reached lost
    · decide
    · decide
    · omega
  | other text => exact absurd policy (known text)

end Counting

section Voting

variable {start r : Request} {choice : String → Bool}

/-- The state between two attempts before the request expires. -/
structure Tallied (start : Request) (choice : String → Bool) (r : Request) : Prop extends Polled start choice r where
  unsettled : r.decision = .pending → r.votes ≠ [] → r.evaluatePolicyLocked = .pending
  verdict : r.decision = .pending ∨ (r.decision = .approved ∧ Holds start choice) ∨
    (r.decision = .rejected ∧ ¬ Holds start choice)

def voters (r : Request) : List String := r.votes.map Vote.approverID

lemma voters_record (r : Request) (v : Vote) : voters (r.record v) = voters r ++ [v.approverID] := map_append

lemma castVote_cases (r : Request) (approverID : String) (approved : Bool) (comment : String) {now : Int}
    (timely : past r.expiresAt now = false) : ((r.castVote approverID approved comment now).1 = r ∧
      (r.decision = .pending → approverID ∈ r.approvers → approverID ∈ voters r)) ∨
    (r.decision = .pending ∧ approverID ∈ r.approvers ∧ approverID ∉ voters r ∧
      (r.castVote approverID approved comment now).1 = (r.record ⟨approverID,approved,comment,now⟩).settle now) := by
  unfold Request.castVote
  by_cases decided : r.decision ≠ .pending
  · rw [if_pos decided]
    exact .inl ⟨rfl,fun open_ => absurd open_ decided⟩
  rw [if_neg decided]
  by_cases unknown : approverID ∉ r.approvers
  · rw [if_pos unknown]
    exact .inl ⟨rfl,fun _ known => absurd known unknown⟩
  rw [if_neg unknown]
  by_cases duplicate : approverID ∈ r.votes.map Vote.approverID
  · rw [if_pos duplicate]
    exact .inl ⟨rfl,fun _ _ => duplicate⟩
  rw [if_neg duplicate,if_neg (by rw [timely]; decide)]
  exact .inr ⟨not_not.mp decided,not_not.mp unknown,duplicate,rfl⟩

lemma Tallied.record (tallied : Tallied start choice r) {v : Vote} (known : v.approverID ∈ start.approvers)
    (first : v.approverID ∉ voters r) (chosen : v.approved = choice v.approverID) : Polled start choice (r.record v) := by
  refine ⟨tallied.policy,tallied.quorum,tallied.approvers,tallied.expiresAt,?_,?_⟩
  · rw [Request.record,map_append]
    refine nodup_append.mpr ⟨tallied.distinct,nodup_singleton _,?_⟩
    rintro a voted b here rfl
    rw [mem_singleton.mp here] at voted
    exact first voted
  · intro w member
    rcases mem_append.mp member with old | here
    · exact tallied.inside w old
    · rw [mem_singleton.mp here]
      exact ⟨known,chosen⟩

lemma Polled.settle (polled : Polled start choice r) (pending : r.decision = .pending) (now : Int) :
    Tallied start choice (r.settle now) ∧ ((r.settle now).decision = .pending → r.settle now = r) := by
  rw [Request.settle]
  rcases polled.evaluate with open_ | settled
  · rw [if_neg (not_not.mpr open_)]
    exact ⟨⟨polled,fun _ _ => open_,.inl pending⟩,fun _ => rfl⟩
  · have final : r.evaluatePolicyLocked ≠ .pending := by
      rcases settled with ⟨yes,-⟩ | ⟨no,-⟩
      · rw [yes]
        decide
      · rw [no]
        decide
    rw [if_pos final]
    have same : Polled start choice { r with decision := r.evaluatePolicyLocked,decidedAt := some now } :=
      ⟨polled.policy,polled.quorum,polled.approvers,polled.expiresAt,polled.distinct,polled.inside⟩
    exact ⟨⟨same,fun open_ => absurd open_ final,.inr settled⟩,fun open_ => absurd open_ final⟩

lemma Tallied.castVote (tallied : Tallied start choice r) {approverID : String} {approved : Bool} (comment : String)
    {now : Int} (follows : Follows start choice (.vote approverID approved comment now)) :
    Tallied start choice (r.castVote approverID approved comment now).1 ∧
      ((r.castVote approverID approved comment now).1.decision = .pending →
        (∀ id ∈ voters r,id ∈ voters (r.castVote approverID approved comment now).1) ∧
        (approverID ∈ start.approvers → approverID ∈ voters (r.castVote approverID approved comment now).1)) := by
  obtain ⟨chosen,timely⟩ := follows
  rw [← tallied.expiresAt] at timely
  rcases castVote_cases r approverID approved comment timely with ⟨same,voted⟩ | ⟨pending,known,first,result⟩
  · rw [same]
    refine ⟨tallied,fun open_ => ⟨fun _ voter => voter,fun known => voted open_ ?_⟩⟩
    rw [tallied.approvers]
    exact known
  · rw [tallied.approvers] at known
    have polled : Polled start choice (r.record ⟨approverID,approved,comment,now⟩) := tallied.record known first (chosen known)
    obtain ⟨settled,kept⟩ := polled.settle pending now
    rw [result]
    refine ⟨settled,fun open_ => ?_⟩
    rw [kept open_,voters_record]
    exact ⟨fun id voter => mem_append_left _ voter,fun _ => mem_append_right _ mem_cons_self⟩

lemma Tallied.act (tallied : Tallied start choice r) {a : Attempt} (follows : Follows start choice a) :
    Tallied start choice (r.act a) ∧ ((r.act a).decision = .pending → (∀ id ∈ voters r,id ∈ voters (r.act a)) ∧
        ∀ id approved comment now,a = .vote id approved comment now → id ∈ start.approvers → id ∈ voters (r.act a)) := by
  cases a with
  | vote approverID approved comment now =>
    obtain ⟨kept,tried⟩ := tallied.castVote comment follows
    refine ⟨kept,fun open_ => ⟨(tried open_).1,?_⟩⟩
    intro id _ _ _ same known
    cases same
    exact (tried open_).2 known
  | escalation now =>
    have timely : past r.expiresAt now = false := by
      rw [tallied.expiresAt]
      exact follows
    have same : r.act (.escalation now) = r := by
      rw [Request.act,Request.checkEscalation,if_neg]
      rintro ⟨-,-,-,late⟩
      rw [timely] at late
      cases late
    rw [same]
    exact ⟨tallied,fun _ => ⟨fun _ voted => voted,fun _ _ _ _ other => by cases other⟩⟩

lemma Tallied.foldl (tallied : Tallied start choice r) (acts : List Attempt) (follows : ∀ a ∈ acts,Follows start choice a) :
    Tallied start choice (acts.foldl Request.act r) ∧
      ((acts.foldl Request.act r).decision = .pending → (∀ id ∈ voters r,id ∈ voters (acts.foldl Request.act r)) ∧
        ∀ id approved comment now,.vote id approved comment now ∈ acts → id ∈ start.approvers →
          id ∈ voters (acts.foldl Request.act r)) := by
  induction acts generalizing r with
  | nil => exact ⟨tallied,fun _ => ⟨fun _ voted => voted,by simp⟩⟩
  | cons a rest ih =>
    obtain ⟨kept,here⟩ := tallied.act (follows a mem_cons_self)
    obtain ⟨kept',later⟩ := ih kept (fun b member => follows b (mem_cons_of_mem _ member))
    rw [foldl_cons]
    refine ⟨kept',fun open_ => ?_⟩
    have before : (r.act a).decision = .pending := by
      by_contra decided
      rw [foldl_act_of_decided decided] at open_
      exact decided open_
    obtain ⟨grown,tried⟩ := here before
    obtain ⟨grown',tried'⟩ := later open_
    refine ⟨fun id voted => grown' id (grown id voted),?_⟩
    intro id approved comment now member known
    rcases mem_cons.mp member with same | behind
    · exact grown' id (tried id approved comment now same.symm known)
    · exact tried' id approved comment now behind known

end Voting

variable {text : String}

section OtherPolicy

lemma castVote_other {r : Request} (policy : r.policy = .other text) (pending : r.decision = .pending)
    (approverID : String) (approved : Bool) (comment : String) {now : Int} (timely : past r.expiresAt now = false) :
    (r.castVote approverID approved comment now).1.policy = .other text ∧
      (r.castVote approverID approved comment now).1.decision = .pending ∧
      (r.castVote approverID approved comment now).1.expiresAt = r.expiresAt := by
  rcases castVote_cases r approverID approved comment timely with ⟨same,-⟩ | ⟨-,-,-,result⟩
  · rw [same]
    exact ⟨policy,pending,rfl⟩
  · have never : (r.record ⟨approverID,approved,comment,now⟩).evaluatePolicyLocked = .pending := by
      rw [Request.evaluatePolicyLocked,Request.record,policy]
    rw [result,Request.settle,if_neg (not_not.mpr never)]
    exact ⟨policy,pending,rfl⟩

lemma foldl_vote_other {r : Request} (policy : r.policy = .other text) (pending : r.decision = .pending)
    {now : Int} (timely : past r.expiresAt now = false) (voters : List String) :
    ((voters.map (fun a => Attempt.vote a true "" now)).foldl Request.act r).decision = .pending := by
  induction voters generalizing r with
  | nil => exact pending
  | cons a rest ih =>
    obtain ⟨policy',pending',same⟩ := castVote_other policy pending a true "" timely
    rw [map_cons]
    exact ih policy' pending' (by rw [Request.act,same]; exact timely)

lemma castVote_requests (m : Manager) (requestID approverID : String) (approved : Bool) (comment : String) (now : Int) :
    (m.castVote requestID approverID approved comment now).1.requests = m.requests := by
  rw [Manager.castVote,Manager.locked]
  split
  · rfl
  · split
    all_goals rfl

lemma attempts_votes {m : Manager} {p : Nat} {id : String} (found : m.requests id = some p) (voters : List String) (now : Int) :
    attempts p m (voters.map (fun a => .castVote id a true "" now)) = voters.map (fun a => .vote a true "" now) := by
  induction voters generalizing m with
  | nil => rfl
  | cons a rest ih =>
    rw [map_cons,attempts,attempt,if_pos found,ih (by rw [step,castVote_requests]; exact found)]
    rfl

end OtherPolicy

section Accepted

variable {m m' : Manager} {p : Nat} {id ns runID stepID : String} {policy : PolicyType} {approvers : List String}
  {quorumCount timeout : Int} {escalateTo : String} {now : Int}
  (accepted : m.createRequest id ns runID stepID policy approvers quorumCount timeout escalateTo now = .ok (m',p))

include accepted

lemma createRequest_ok :
    m'.objects[p]? = some (newRequest id ns runID stepID policy approvers quorumCount timeout escalateTo now) ∧
      m'.requests id = some p ∧ approvers ≠ [] := by
  unfold Manager.createRequest at accepted
  split_ifs at accepted with empty invalid
  cases accepted
  refine ⟨getElem?_concat_length,Function.update_self ..,?_⟩
  rintro rfl
  exact empty rfl

lemma settled_of_accepted (calls more : List Call) (decided : decision (calls.foldl step m') p ≠ some .pending) :
    decision ((calls ++ more).foldl step m') p = decision (calls.foldl step m') p := by
  have stored := foldl_step_object calls m' (createRequest_ok accepted).1
  rw [foldl_append]
  rw [decision,stored] at decided
  rw [decision,decision,foldl_step_object more _ stored,stored,foldl_act_of_decided (fun open_ => decided (by rw [Option.map_some,open_]))]

lemma outcome_of_accepted (known : ∀ text,policy ≠ .other text) (choice : String → Bool) (calls : List Call)
    (follows : ∀ a ∈ attempts p m' calls,
      Follows (newRequest id ns runID stepID policy approvers quorumCount timeout escalateTo now) choice a)
    (tried : ∀ a ∈ approvers,∃ approved comment now,.vote a approved comment now ∈ attempts p m' calls) :
    (decision (calls.foldl step m') p = some .approved ↔
      Holds (newRequest id ns runID stepID policy approvers quorumCount timeout escalateTo now) choice) ∧
    (decision (calls.foldl step m') p = some .rejected ↔
      ¬ Holds (newRequest id ns runID stepID policy approvers quorumCount timeout escalateTo now) choice) := by
  obtain ⟨stored,-,some_⟩ := createRequest_ok accepted
  set start := newRequest id ns runID stepID policy approvers quorumCount timeout escalateTo now with created
  have empty : start.votes = [] := rfl
  have fresh : Tallied start choice start := by
    refine ⟨⟨rfl,rfl,rfl,rfl,nodup_nil,?_⟩,fun _ votes => absurd empty votes,.inl rfl⟩
    rw [empty]
    simp
  obtain ⟨tallied,voted⟩ := fresh.foldl (attempts p m' calls) follows
  rw [decision,foldl_step_object calls m' stored,Option.map_some,Option.some_inj]
  have decided : ((attempts p m' calls).foldl Request.act start).decision ≠ .pending := by
    intro open_
    have all : ∀ a ∈ start.approvers,a ∈ voters ((attempts p m' calls).foldl Request.act start) := by
      intro a member
      obtain ⟨approved,comment,at_,vote⟩ := tried a (mem_toFinset.mp member)
      exact (voted open_).2 a approved comment at_ vote member
    obtain ⟨a,member⟩ := exists_mem_of_ne_nil _ some_
    have some_vote : ((attempts p m' calls).foldl Request.act start).votes ≠ [] := by
      intro none_
      have voter := all a (mem_toFinset.mpr member)
      rw [voters,none_] at voter
      cases voter
    exact tallied.evaluate_all known all (tallied.unsettled open_ some_vote)
  rcases tallied.verdict with open_ | ⟨yes,holds⟩ | ⟨no,fails⟩
  · exact absurd open_ decided
  · rw [yes]
    exact ⟨iff_of_true rfl holds,iff_of_false (by decide) (not_not.mpr holds)⟩
  · rw [no]
    exact ⟨iff_of_false (by decide) fails,iff_of_true rfl fails⟩

lemma unfaithful_of_other (other : policy = .other text) :
    ¬ Faithful m' p (newRequest id ns runID stepID policy approvers quorumCount timeout escalateTo now) := by
  intro faithful
  obtain ⟨stored,found,-⟩ := createRequest_ok accepted
  set start := newRequest id ns runID stepID policy approvers quorumCount timeout escalateTo now with created
  have timely : past start.expiresAt now = false := by
    simp only [created,newRequest]
    split_ifs with limited
    · simp only [past,Option.any_some,decide_eq_false_iff_not]
      omega
    · rfl
  have reached := attempts_votes found approvers now
  obtain ⟨-,rejects⟩ := faithful.outcome (fun _ => true) (approvers.map (fun a => .castVote id a true "" now))
    (by
      rw [reached]
      intro a member
      obtain ⟨voter,-,rfl⟩ := mem_map.mp member
      exact ⟨fun _ => rfl,timely⟩)
    (by
      rw [reached]
      intro a member
      exact ⟨true,"",now,mem_map.mpr ⟨a,mem_toFinset.mp member,rfl⟩⟩)
  have fails : ¬ Holds start (fun _ => true) := by
    have policies : start.policy = .other text := other
    rw [Holds,policies]
    exact not_false
  have rejected := rejects.mpr fails
  rw [decision,foldl_step_object _ m' stored,reached,Option.map_some,foldl_vote_other other rfl timely] at rejected
  cases rejected

end Accepted

/-- An accepted request is decided as its policy says, in every order of the votes and for
good, exactly if its policy is one of the three. -/
theorem faithful_iff (m m' : Manager) (p : Nat) (id ns runID stepID : String) (policy : PolicyType)
    (approvers : List String) (quorumCount timeout : Int) (escalateTo : String) (now : Int)
    (accepted : m.createRequest id ns runID stepID policy approvers quorumCount timeout escalateTo now = .ok (m',p)) :
    Faithful m' p (newRequest id ns runID stepID policy approvers quorumCount timeout escalateTo now) ↔
      policy = .any ∨ policy = .all ∨ policy = .quorum := by
  constructor
  · intro faithful
    cases policy with
    | any => exact .inl rfl
    | all => exact .inr (.inl rfl)
    | quorum => exact .inr (.inr rfl)
    | other text => exact absurd faithful (unfaithful_of_other accepted rfl)
  · intro known
    refine ⟨fun choice calls follows tried => ?_,settled_of_accepted accepted⟩
    apply outcome_of_accepted accepted _ choice calls follows
    · intro a member
      exact tried a (mem_toFinset.mpr member)
    · rintro text rfl
      rcases known with h | h | h <;> cases h

/-- A quorum of two among two approvers, one of them listed twice. -/
theorem faithful_quorum :
    ∃ m' p, Manager.createRequest {} "r" "ns" "run" "step" .quorum ["ann","bob","ann"] 2 0 "" 0 = .ok (m',p) ∧
      Faithful m' p (newRequest "r" "ns" "run" "step" .quorum ["ann","bob","ann"] 2 0 "" 0) :=
  ⟨_,_,rfl,(faithful_iff _ _ _ _ _ _ _ _ _ _ _ _ _ rfl).mpr (.inr (.inr rfl))⟩

/-- A request with an empty policy is accepted, and pending after its only approver voted. -/
theorem unfaithful_empty_policy :
    ∃ m' p, Manager.createRequest {} "r" "ns" "run" "step" (.other "") ["ann"] 0 0 "" 0 = .ok (m',p) ∧
      ¬ Faithful m' p (newRequest "r" "ns" "run" "step" (.other "") ["ann"] 0 0 "" 0) :=
  ⟨_,_,rfl,unfaithful_of_other (m := {}) rfl rfl⟩

end Tempest.Approval
