import Tempest.Approval

/-! Votes after an escalation. `CheckEscalation` adds the escalation target to the approvers once
the deadline of a request has passed, and from then on `CastVote` declares the request expired. -/
namespace Tempest.Approval

/-- The vote is recorded and the policy of the request is evaluated with the target among the
approvers: `start` is the request as it was escalated, `r` as it is when the vote is cast. -/
def Counted (m : Manager) (p : Nat) (requestID : String) (start r : Request) (approved : Bool) (comment : String)
    (now : Int) : Prop :=
  let widened : Request := { r with policy := start.policy, quorumCount := start.quorumCount, approvers := insert start.escalateTo start.approvers }
  let settled := (widened.record ⟨start.escalateTo,approved,comment,now⟩).settle now
  m.castVote requestID start.escalateTo approved comment now = (⟨m.requests,m.objects.set p settled⟩,settled.decision,none)

/-- What stays of an escalated request. -/
structure Widened (start r : Request) : Prop where
  policy : r.policy = start.policy
  quorum : r.quorumCount = start.quorumCount
  expiresAt : r.expiresAt = start.expiresAt
  approvers : r.approvers = insert start.escalateTo start.approvers
  escalated : r.escalated = true

variable {start r : Request} {m : Manager} {requestID : String} {p : Nat}

lemma Widened.settle (widened : Widened start r) (v : Vote) (now : Int) :
    Widened start ((r.record v).settle now) := by
  unfold Request.settle
  dsimp only
  split_ifs
  all_goals exact ⟨widened.policy,widened.quorum,widened.expiresAt,widened.approvers,widened.escalated⟩

lemma Widened.act (widened : Widened start r) (a : Attempt) : Widened start (r.act a) := by
  cases a with
  | vote approverID approved comment now =>
    rw [Request.act,Request.castVote]
    split_ifs
    · exact widened
    · exact widened
    · exact ⟨widened.policy,widened.quorum,widened.expiresAt,widened.approvers,widened.escalated⟩
    · exact widened.settle _ now
    · exact widened
  | escalation now =>
    rw [Request.act,Request.checkEscalation,if_neg]
    · exact widened
    · rintro ⟨-,fresh,-⟩
      exact absurd (widened.escalated.symm.trans fresh) (by decide)

lemma Widened.foldl (widened : Widened start r) (acts : List Attempt) :
    Widened start (acts.foldl Request.act r) := by
  induction acts generalizing r with
  | nil => exact widened
  | cons a rest ih => exact ih (widened.act a)

lemma widened_of_granted {now : Int} (granted : (r.checkEscalation now).2 = true) :
    Widened r (r.checkEscalation now).1 := by
  unfold Request.checkEscalation at granted ⊢
  split_ifs at granted ⊢
  exact ⟨rfl,rfl,rfl,rfl,rfl⟩

lemma locked_found {α : Type} (found : m.requests requestID = some p)
    (stored : m.objects[p]? = some r) (missing : α) (act : Request → Request × α) :
    m.locked requestID missing act = (⟨m.requests,m.objects.set p (act r).1⟩,(act r).2) := by
  unfold Manager.locked
  rw [found]
  dsimp only
  rw [stored]

lemma castVote_allowed (pending : r.decision = .pending) {approverID : String} (member : approverID ∈ r.approvers)
    (approved : Bool) (comment : String) (now : Int) : r.castVote approverID approved comment now =
      if approverID ∈ r.votes.map Vote.approverID then (r,.pending,some .duplicateVote)
      else if past r.expiresAt now = true then ({ r with decision := .expired,decidedAt := some now },.expired,none)
      else ((r.record ⟨approverID,approved,comment,now⟩).settle now,
        ((r.record ⟨approverID,approved,comment,now⟩).settle now).decision,none) := by
  rw [Request.castVote,if_neg (not_not.mpr pending),if_neg (not_not.mpr member)]

lemma evaluatePolicyLocked_unexpired (r : Request) : r.evaluatePolicyLocked ≠ .expired := by
  unfold Request.evaluatePolicyLocked
  dsimp only
  split
  case h_4 => decide
  all_goals split_ifs <;> decide

lemma settle_unexpired (pending : r.decision = .pending) (v : Vote) (now : Int) :
    ((r.record v).settle now).decision ≠ .expired := by
  unfold Request.settle
  dsimp only
  split_ifs
  · exact evaluatePolicyLocked_unexpired (r.record v)
  · exact fun expired => absurd (pending.symm.trans expired) (by decide)

lemma Widened.counted_iff (widened : Widened start r)
    (found : m.requests requestID = some p) (stored : m.objects[p]? = some r) (pending : r.decision = .pending)
    (approved : Bool) (comment : String) (now : Int) : Counted m p requestID start r approved comment now ↔
      past start.expiresAt now = false ∧ start.escalateTo ∉ r.votes.map Vote.approverID := by
  obtain ⟨policy,quorum,expiresAt,approvers,-⟩ := widened
  have same : { r with policy := start.policy,quorumCount := start.quorumCount,approvers := insert start.escalateTo start.approvers } = r := by
    rw [← policy,← quorum,← approvers]
  have member : start.escalateTo ∈ r.approvers := by
    rw [approvers]
    exact Finset.mem_insert_self _ _
  unfold Counted
  rw [same,Manager.castVote,locked_found found stored,castVote_allowed pending member,expiresAt]
  constructor
  · intro equal
    have results := congrArg Prod.snd equal
    by_cases voted : start.escalateTo ∈ r.votes.map Vote.approverID
    · rw [if_pos voted] at results
      exact (Option.some_ne_none _ (congrArg Prod.snd results)).elim
    · rw [if_neg voted] at results
      refine ⟨?_,voted⟩
      by_contra late
      rw [if_pos (Bool.eq_true_of_not_eq_false late)] at results
      exact settle_unexpired pending _ now (congrArg Prod.fst results).symm
  · rintro ⟨early,fresh⟩
    rw [if_neg fresh,if_neg (by rw [early]; decide)]

lemma past_mono {expiresAt : Option Int} {asked now : Int} (late : past expiresAt asked = true) (later : asked ≤ now) :
    past expiresAt now = true := by
  cases expiresAt with
  | none => cases late
  | some t =>
    have before := of_decide_eq_true late
    exact decide_eq_true (Int.lt_of_lt_of_le before later)

/-- After an escalation, whatever was called since, a vote of the target on the pending request
counts exactly if the deadline has not passed by the clock of the vote and the target has not
voted yet. The deadline has passed by the clock of the escalation, so no later vote counts. -/
theorem escalated_vote_iff (m : Manager) (requestID : String) (p : Nat) (start : Request)
    (found : m.requests requestID = some p) (stored : m.objects[p]? = some start) (asked : Int)
    (granted : (m.checkEscalation requestID asked).2 = true) (calls : List Call) (m' : Manager)
    (reached : calls.foldl step (m.checkEscalation requestID asked).1 = m') (kept : m'.requests requestID = some p)
    (r : Request) (current : m'.objects[p]? = some r) (pending : r.decision = .pending) (approved : Bool) (comment : String)
    (now : Int) :
    (Counted m' p requestID start r approved comment now ↔
      past start.expiresAt now = false ∧ start.escalateTo ∉ r.votes.map Vote.approverID) ∧
    (asked ≤ now → ¬ Counted m' p requestID start r approved comment now) := by
  rw [Manager.checkEscalation,locked_found found stored] at granted reached
  have object := foldl_step_object calls ⟨m.requests,m.objects.set p (start.checkEscalation asked).1⟩
    (List.getElem?_set_self (List.getElem?_eq_some_iff.mp stored).1)
  rw [reached,current,Option.some.injEq] at object
  have widened : Widened start r := by
    rw [object]
    exact (widened_of_granted granted).foldl _
  have late : past start.expiresAt asked = true := by
    unfold Request.checkEscalation at granted
    split_ifs at granted with conditions
    exact conditions.2.2.2
  have counts := widened.counted_iff kept current pending approved comment now
  refine ⟨counts,fun later counted => ?_⟩
  exact absurd ((past_mono late later).symm.trans (counts.mp counted).1) (by decide)

def overdue : Request := newRequest "r" "ns" "run" "step" .all ["a"] 0 10 "e" 0

def escalating : Manager := ⟨fun id => if id = "r" then some 0 else none,[overdue]⟩

/-- With a clock that is behind the one of the escalation the target's vote counts. -/
theorem escalated_vote_early :
    Counted (escalating.checkEscalation "r" 11).1 0 "r" overdue (overdue.checkEscalation 11).1 true "" 10 :=
  (escalated_vote_iff escalating "r" 0 overdue rfl rfl 11 (by decide) [] _ rfl rfl _ rfl rfl true "" 10).1.mpr
    ⟨by decide,by decide⟩

/-- The target votes right after the escalation and the request expires. -/
theorem escalated_vote_expires :
    ¬ Counted (escalating.checkEscalation "r" 11).1 0 "r" overdue (overdue.checkEscalation 11).1 true "" 11 := by
  intro counted
  have results := congrArg (fun result => result.2.1) counted
  revert results
  decide

end Tempest.Approval
