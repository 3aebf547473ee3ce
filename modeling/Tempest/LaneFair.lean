import Mathlib.Algebra.Order.Field.Basic
import Mathlib.Tactic.FieldSimp
import Mathlib.Tactic.Linarith
import Tempest.LaneOnce

/-! Deficit round robin is fair. A deficit stays below the greatest cost when its lane is
not in its turn and below that and a quantum when it is, and two lanes that are never
empty are given their quanta in turns. -/
open List
namespace Tempest.Lanes
open Function

variable {n : Nat}

def DRRScheduler.inTurn (s : DRRScheduler n) (i : Fin n) : Bool := s.roundIndex = i ∧ s.quantumAdded = true

structure Deficits (M : Int) (s : DRRScheduler n) : Prop where
  quanta : ∀ i, 0 < (s.lanes i).cfg.quantum
  low : ∀ i, 0 ≤ (s.lanes i).deficit
  high : ∀ i, (s.lanes i).deficit ≤ M - 1 + (if s.inTurn i then (s.lanes i).cfg.quantum else 0)

def Costs (M : Int) (s : DRRScheduler n) : Prop := ∀ i, ∀ t ∈ (s.lanes i).tasks, 1 ≤ t.cost ∧ t.cost ≤ M

variable {s' : DRRScheduler n} {task : Option Task}

section Deficits

variable {M : Int} {s : DRRScheduler n}

section
variable (deficits : Deficits M s)
include deficits

lemma credit_low : 0 ≤ s.credit := by
  have low := deficits.low s.roundIndex
  have positive := deficits.quanta s.roundIndex
  unfold DRRScheduler.credit
  dsimp only
  split_ifs <;> omega

lemma credit_high : s.credit ≤ M - 1 + (s.lanes s.roundIndex).cfg.quantum := by
  have high := deficits.high s.roundIndex
  unfold DRRScheduler.inTurn at high
  unfold DRRScheduler.credit
  dsimp only
  split_ifs with added
  · simpa [added] using high
  · have short : (s.lanes s.roundIndex).deficit ≤ M - 1 := by simpa [added] using high
    omega

lemma high_outside {i : Fin n} (other : i ≠ s.roundIndex) : (s.lanes i).deficit ≤ M - 1 := by
  have high := deficits.high i
  have outside : s.inTurn i = false := by simp [DRRScheduler.inTurn,Ne.symm other]
  rw [outside] at high
  simpa using high

lemma deficits_put {l : Lane}
    (lanes : s'.lanes = update s.lanes s.roundIndex l) (cfg : l.cfg = (s.lanes s.roundIndex).cfg)
    (low : 0 ≤ l.deficit) (high : l.deficit ≤ M - 1 + (if s'.inTurn s.roundIndex then l.cfg.quantum else 0)) :
    Deficits M s' := by
  have quanta : ∀ i,0 < (s'.lanes i).cfg.quantum := by
    intro i
    rw [lanes]
    by_cases same : i = s.roundIndex
    · rw [same,update_self,cfg]
      exact deficits.quanta _
    · rw [update_of_ne same]
      exact deficits.quanta i
  refine ⟨quanta,?_,?_⟩
  · intro i
    rw [lanes]
    by_cases same : i = s.roundIndex
    · rwa [same,update_self]
    · rw [update_of_ne same]
      exact deficits.low i
  · intro i
    have positive := quanta i
    rw [lanes] at positive ⊢
    by_cases same : i = s.roundIndex
    · rwa [same,update_self]
    · rw [update_of_ne same] at positive ⊢
      have outside := high_outside deficits same
      split_ifs <;> omega

end

lemma advance_inTurn (i : Fin n) : s.advance.inTurn i = false := by simp [DRRScheduler.inTurn,DRRScheduler.advance]

lemma deficits_attempt (deficits : Deficits M s) (costs : Costs M s)
    (attempt : Attempt s task s') (large : 1 ≤ M) : Deficits M s' := by
  have credit := credit_low deficits
  have bound := credit_high deficits
  cases attempt with
  | empty none_ =>
    refine deficits_put deficits rfl ?_ ?_ ?_
    · rfl
    · exact le_refl _
    · rw [advance_inTurn]
      simpa using large
  | short tasks low =>
    have cheap := (costs s.roundIndex _ (by rw [tasks]; exact mem_cons_self)).2
    refine deficits_put deficits rfl ?_ ?_ ?_
    · rfl
    · exact credit
    · rw [advance_inTurn]
      simp only [Bool.false_eq_true,if_false]
      omega
  | last tasks enough =>
    refine deficits_put deficits rfl ?_ ?_ ?_
    · rfl
    · exact le_refl _
    · rw [advance_inTurn]
      simpa using large
  | ended tasks enough low =>
    have cheap := (costs s.roundIndex _ (by rw [tasks]; exact mem_cons_of_mem _ mem_cons_self)).2
    refine deficits_put deficits rfl ?_ ?_ ?_
    · rfl
    · exact Int.sub_nonneg_of_le enough
    · rw [advance_inTurn]
      simp only [Bool.false_eq_true,if_false]
      omega
  | continued tasks enough more =>
    have some_ := (costs s.roundIndex _ (by rw [tasks]; exact mem_cons_self)).1
    refine deficits_put deficits rfl ?_ ?_ ?_
    · rfl
    · exact Int.sub_nonneg_of_le enough
    · rw [DRRScheduler.inTurn]
      simp only [DRRScheduler.put,and_self,decide_true,if_true]
      omega

lemma deficits_congr (deficits : Deficits M s) (cfg : ∀ i,(s'.lanes i).cfg = (s.lanes i).cfg)
    (deficit : ∀ i,(s'.lanes i).deficit = (s.lanes i).deficit) (turn : ∀ i,s'.inTurn i = s.inTurn i) : Deficits M s' := by
  constructor
  · intro i
    rw [cfg]
    exact deficits.quanta i
  · intro i
    rw [deficit]
    exact deficits.low i
  · intro i
    rw [deficit,cfg,turn]
    exact deficits.high i

end Deficits

lemma put_tasks (s : DRRScheduler n) (lane : Fin n) (tasks : List Task) (i : Fin n) :
    ((s.put lane { s.lanes lane with tasks }).lanes i).cfg = (s.lanes i).cfg ∧
      ((s.put lane { s.lanes lane with tasks }).lanes i).deficit = (s.lanes i).deficit := by
  rw [DRRScheduler.put_lanes]
  by_cases same : i = lane
  · rw [same,update_self]
    exact ⟨rfl,rfl⟩
  · rw [update_of_ne same]
    exact ⟨rfl,rfl⟩

/-- Whatever bounds the costs of the accepted tasks bounds the deficits. -/
structure Priced (s : System n) : Prop where
  paid : ∀ lane, ∀ t ∈ s.acceptedInto lane, 1 ≤ t.cost
  bounded : ∀ M, 1 ≤ M → (∀ lane, ∀ t ∈ s.acceptedInto lane, t.cost ≤ M) → Deficits M s.scheduler

lemma Priced.costs {s : System n} (priced : Priced s) (accounted : Accounted s) {M : Int}
    (most : ∀ lane,∀ t ∈ s.acceptedInto lane,t.cost ≤ M) : Costs M s.scheduler := by
  intro i t member
  have accepted : t ∈ s.acceptedInto i := by
    rw [← accounted.fifo i]
    exact mem_append_right _ member
  exact ⟨priced.paid i t accepted,most i t accepted⟩

lemma acceptedInto_deliver (s : System n) (c : Nat) (i : Fin n) (task : Task) (starved : Bool) (lane : Fin n) :
    (s.deliver c i task starved).acceptedInto lane = s.acceptedInto lane := by
  simp [System.deliver,System.goto,System.record,System.release,System.acceptedInto,Event.into]

lemma admitted_cost (l : Lane) (task : Task) (now : Time) : 1 ≤ (l.admitted task now).cost := by
  unfold Lane.admitted
  dsimp only
  split_ifs <;> omega

variable {c : Nat}

lemma Priced.effect {s s' : System n} (priced : Priced s) (accounted : Accounted s) (effect : Effect s c s') :
    Priced s' := by
  cases effect with
  | idle => exact priced
  | moved here moves => exact ⟨priced.paid,priced.bounded⟩
  | @inserted lane task now here =>
    have accepted : ∀ i,s.acceptedInto i ⊆ (((s.schedule (s.scheduler.put lane { s.scheduler.lanes lane with
          tasks := (s.scheduler.lanes lane).tasks ++ [(s.scheduler.lanes lane).admitted task now] })).record
        (.accepted c lane ((s.scheduler.lanes lane).admitted task now))).goto c
          (.count lane ((s.scheduler.lanes lane).admitted task now))).acceptedInto i := by
      intro i t member
      change t ∈ (s.log ++ [_]).filterMap (Event.into i)
      rw [filterMap_append]
      exact mem_append_left _ member
    constructor
    · intro i t member
      change t ∈ (s.log ++ [_]).filterMap (Event.into i) at member
      rw [filterMap_append] at member
      rcases mem_append.mp member with old | new
      · exact priced.paid i t old
      · by_cases same : lane = i
        · simp only [filterMap_cons,Event.into,same,if_true,filterMap_nil,mem_singleton] at new
          rw [new]
          exact admitted_cost _ _ _
        · simp [Event.into,same] at new
    · intro M large most
      have before := priced.bounded M large (fun i t member => most i t (accepted i member))
      have kept := put_tasks s.scheduler lane ((s.scheduler.lanes lane).tasks ++ [(s.scheduler.lanes lane).admitted task now])
      exact deficits_congr before (fun i => (kept i).1) (fun i => (kept i).2) (fun i => rfl)
  | counted here free =>
    exact ⟨priced.paid,fun M large most => deficits_congr (priced.bounded M large most) (fun _ => rfl) (fun _ => rfl) (fun _ => rfl)⟩
  | @starved i task rest here tasks =>
    constructor
    · intro lane t member
      rw [acceptedInto_deliver] at member
      exact priced.paid lane t member
    · intro M large most
      have before := priced.bounded M large (fun lane t member => most lane t (by rwa [acceptedInto_deliver]))
      have kept := put_tasks s.scheduler i rest
      exact deficits_congr before (fun i => (kept i).1) (fun i => (kept i).2) (fun i => rfl)
  | @passed k scheduler here result =>
    have attempt := attempt_cases s.scheduler
    rw [result] at attempt
    refine ⟨priced.paid,?_⟩
    intro M large most
    exact deficits_attempt (priced.bounded M large most) (priced.costs accounted most) attempt large
  | @served k task scheduler here result =>
    have attempt := attempt_cases s.scheduler
    rw [result] at attempt
    constructor
    · intro lane t member
      rw [acceptedInto_deliver] at member
      exact priced.paid lane t member
    · intro M large most
      have most' := fun lane t member => most lane t (by rwa [acceptedInto_deliver])
      exact deficits_attempt (priced.bounded M large most') (priced.costs accounted most') attempt large

section Lead

def between (a b p : Nat) : Int := if a < p ∧ p ≤ b then 1 else 0

lemma between_wrap {a b r : Nat} (inside : r < n) (small : b < n) : between a b ((r + 1) % n) = between a b (r + 1) := by
  rcases Nat.lt_or_ge (r + 1) n with less | last
  · rw [Nat.mod_eq_of_lt less]
  · have end_ : r + 1 = n := by omega
    rw [end_,Nat.mod_self,between,between,if_neg (by omega),if_neg (by omega)]

lemma between_succ {a b : Nat} (order : a < b) (r : Nat) :
    between a b (r + 1) = between a b r + (if r = a then 1 else 0) - (if r = b then 1 else 0) := by
  unfold between
  split_ifs <;> omega

def DRRScheduler.position (s : DRRScheduler n) : Nat := s.roundIndex + (if s.quantumAdded then 1 else 0)

def lead (i j : Fin n) (s : DRRScheduler n) : Int :=
  if i < j then between i j s.position else -between j i s.position

variable {s : DRRScheduler n} {i j : Fin n}

def due (s : DRRScheduler n) (i : Fin n) : Int := if s.roundIndex = i ∧ s.quantumAdded = false then 1 else 0

lemma between_due {a b : Fin n} (order : a < b) :
    between a b (s.roundIndex + 1) = between a b s.position + due s a - due s b := by
  unfold DRRScheduler.position due
  cases s.quantumAdded with
  | true => simp
  | false =>
    have moved := between_succ order s.roundIndex
    simp only [Bool.false_eq_true,if_false,Nat.add_zero,and_true,Fin.ext_iff] at moved ⊢
    exact moved

lemma lead_attempt (different : i ≠ j)
    (moved : ∀ a b : Fin n,between a b s'.position = between a b (s.roundIndex + 1)) :
    lead i j s' = lead i j s + due s i - due s j := by
  unfold lead
  split_ifs with order
  · rw [moved,between_due order]
  · have reverse := lt_of_le_of_ne (not_lt.mp order) (Ne.symm different)
    rw [moved,between_due reverse]
    omega

lemma position_advance (a b : Fin n) : between a b s.advance.position = between a b (s.roundIndex + 1) := by
  exact between_wrap s.roundIndex.isLt b.isLt

lemma attempt_position (attempt : Attempt s task s') (a b : Fin n) :
    between a b s'.position = between a b (s.roundIndex + 1) := by
  cases attempt with
  | empty none_ | short tasks low | last tasks enough | ended tasks enough low => exact position_advance a b
  | continued tasks enough more => rfl

lemma credit_due (s : DRRScheduler n) :
    s.credit = (s.lanes s.roundIndex).deficit + (s.lanes s.roundIndex).cfg.quantum * due s s.roundIndex := by
  unfold DRRScheduler.credit due
  cases s.quantumAdded <;> simp

lemma due_other (other : i ≠ s.roundIndex) : due s i = 0 := if_neg (fun turn => other turn.1.symm)

lemma attempt_lanes (attempt : Attempt s task s') :
    ∃ l,s'.lanes = update s.lanes s.roundIndex l ∧ l.cfg = (s.lanes s.roundIndex).cfg := by
  cases attempt with
  | empty none_
  | short tasks low
  | last tasks enough
  | ended tasks enough low
  | continued tasks enough more => exact ⟨_,rfl,rfl⟩

lemma attempt_cfg (attempt : Attempt s task s') (i : Fin n) : (s'.lanes i).cfg = (s.lanes i).cfg := by
  obtain ⟨l,lanes,cfg⟩ := attempt_lanes attempt
  rw [lanes]
  by_cases same : i = s.roundIndex
  · rw [same,update_self,cfg]
  · rw [update_of_ne same]

lemma attempt_deficit (attempt : Attempt s task s')
    (before : (s.lanes i).tasks ≠ []) (after : (s'.lanes i).tasks ≠ []) :
    (s'.lanes i).deficit = (s.lanes i).deficit + (s.lanes i).cfg.quantum * due s i -
      (if s.roundIndex = i then (task.map Task.cost).getD 0 else 0) := by
  by_cases same : i = s.roundIndex
  · subst same
    rw [← credit_due]
    cases attempt with
    | empty none_ => exact absurd none_ before
    | short tasks low =>
      change (update s.lanes s.roundIndex _ s.roundIndex).deficit = _
      simp
    | last tasks enough =>
      refine absurd ?_ after
      change (update s.lanes s.roundIndex _ s.roundIndex).tasks = _
      rw [update_self]
    | ended tasks enough low =>
      change (update s.lanes s.roundIndex _ s.roundIndex).deficit = _
      simp
    | continued tasks enough more =>
      simp
  · obtain ⟨l,lanes,_⟩ := attempt_lanes attempt
    rw [lanes,update_of_ne same,due_other same]
    omega

end Lead

def Event.starved : Event n → Bool
  | .returned _ _ _ starved => starved
  | .accepted _ _ _ => false

namespace System

def served (s : System n) (lane : Fin n) : Int := ((s.returnedFrom lane).map Task.cost).sum

def starvations (s : System n) : Nat := s.log.countP Event.starved

/-- What lane `i` and lane `j` have got and what was served from them, from one state to
another: their quanta differ by the change of the lead. -/
def Balanced (i j : Fin n) (s t : System n) : Prop :=
  ∃ g h : Int,
    (t.scheduler.lanes i).deficit =
      (s.scheduler.lanes i).deficit + (s.scheduler.lanes i).cfg.quantum * g - (t.served i - s.served i) ∧
    (t.scheduler.lanes j).deficit =
      (s.scheduler.lanes j).deficit + (s.scheduler.lanes j).cfg.quantum * h - (t.served j - s.served j) ∧
    g - h = lead i j t.scheduler - lead i j s.scheduler

end System

lemma effect_cfg {s s' : System n} (effect : Effect s c s') (i : Fin n) :
    (s'.scheduler.lanes i).cfg = (s.scheduler.lanes i).cfg := by
  cases effect with
  | idle | moved here moves => rfl
  | @inserted lane task now here => exact (put_tasks s.scheduler lane _ i).1
  | counted here free => rfl
  | @starved lane task rest here tasks => exact (put_tasks s.scheduler lane rest i).1
  | passed here result | served here result =>
    have attempt := attempt_cases s.scheduler
    rw [result] at attempt
    exact attempt_cfg attempt i

lemma served_deliver (s : System n) (c : Nat) (i : Fin n) (task : Task) (starved : Bool) (lane : Fin n) :
    (s.deliver c i task starved).served lane = s.served lane + if i = lane then task.cost else 0 := by
  by_cases same : i = lane <;>
    simp [System.deliver,System.goto,System.record,System.release,System.served,System.returnedFrom,Event.outOf,same]

lemma starvations_deliver (s : System n) (c : Nat) (i : Fin n) (task : Task) (starved : Bool) :
    (s.deliver c i task starved).starvations = s.starvations + if starved then 1 else 0 := by
  cases starved <;>
    simp [System.deliver,System.goto,System.record,System.release,System.starvations,Event.starved]

lemma effect_log {s s' : System n} (effect : Effect s c s') : ∃ events,s'.log = s.log ++ events := by
  cases effect with
  | idle | moved here moves => exact ⟨[],(append_nil _).symm⟩
  | inserted here => exact ⟨_,rfl⟩
  | counted here free => exact ⟨[],(append_nil _).symm⟩
  | starved here tasks => exact ⟨_,rfl⟩
  | passed here result => exact ⟨[],(append_nil _).symm⟩
  | served here result => exact ⟨_,rfl⟩

namespace System.Balanced

variable {i j : Fin n} {s t u : System n}

lemma same (first : ∀ k,(t.scheduler.lanes k).deficit = (s.scheduler.lanes k).deficit) (served : ∀ k,t.served k = s.served k)
    (turn : t.scheduler.roundIndex = s.scheduler.roundIndex) (added : t.scheduler.quantumAdded = s.scheduler.quantumAdded) :
    Balanced i j s t := by
  refine ⟨0,0,?_,?_,?_⟩
  · rw [first,served]
    omega
  · rw [first,served]
    omega
  · unfold lead DRRScheduler.position
    rw [turn,added]
    omega

lemma trans (first : Balanced i j s t) (second : Balanced i j t u)
    (cfg : ∀ k,(t.scheduler.lanes k).cfg = (s.scheduler.lanes k).cfg) : Balanced i j s u := by
  obtain ⟨g,h,left,right,difference⟩ := first
  obtain ⟨g',h',left',right',difference'⟩ := second
  refine ⟨g + g',h + h',?_,?_,by omega⟩
  · rw [cfg] at left'
    rw [Int.mul_add]
    omega
  · rw [cfg] at right'
    rw [Int.mul_add]
    omega

lemma attempt (different : i ≠ j) (attempt : Attempt s.scheduler task t.scheduler)
    (served : ∀ k,t.served k = s.served k + if s.scheduler.roundIndex = k then (task.map Task.cost).getD 0 else 0)
    (left : (s.scheduler.lanes i).tasks ≠ []) (left' : (t.scheduler.lanes i).tasks ≠ [])
    (right : (s.scheduler.lanes j).tasks ≠ []) (right' : (t.scheduler.lanes j).tasks ≠ []) : Balanced i j s t := by
  refine ⟨due s.scheduler i,due s.scheduler j,?_,?_,?_⟩
  · rw [attempt_deficit attempt left left',served]
    omega
  · rw [attempt_deficit attempt right right',served]
    omega
  · rw [lead_attempt different (attempt_position attempt)]
    omega

lemma effect (different : i ≠ j) (effect : Effect s c t) (calm : t.starvations = s.starvations)
    (left : (s.scheduler.lanes i).tasks ≠ []) (left' : (t.scheduler.lanes i).tasks ≠ [])
    (right : (s.scheduler.lanes j).tasks ≠ []) (right' : (t.scheduler.lanes j).tasks ≠ []) : Balanced i j s t := by
  cases effect with
  | idle | moved here moves => exact same (fun _ => rfl) (fun _ => rfl) rfl rfl
  | @inserted lane task now here =>
    refine same (fun k => (put_tasks s.scheduler lane _ k).2) (fun k => ?_) rfl rfl
    change (((s.log ++ [_]).filterMap (Event.outOf k)).map Task.cost).sum = _
    rw [filterMap_append,filterMap_cons_none rfl,filterMap_nil,append_nil]
    rfl
  | counted here free => exact same (fun _ => rfl) (fun _ => rfl) rfl rfl
  | starved here tasks =>
    rw [starvations_deliver] at calm
    change s.starvations + 1 = s.starvations at calm
    omega
  | passed here result =>
    have attempt := attempt_cases s.scheduler
    rw [result] at attempt
    refine Balanced.attempt different attempt (fun k => ?_) left left' right right'
    change s.served k = _
    simp
  | served here result =>
    have attempt := attempt_cases s.scheduler
    rw [result] at attempt
    exact Balanced.attempt different attempt (fun k => served_deliver _ _ _ _ _ k) left left' right right'

end System.Balanced

section Stretch

variable {i j : Fin n} {s : System n} (choices : List Choice)

lemma run_cfg (k : Fin n) : ((s.run choices).scheduler.lanes k).cfg = (s.scheduler.lanes k).cfg := by
  induction choices generalizing s with
  | nil => rfl
  | cons choice rest later =>
    change (((s.step choice).run rest).scheduler.lanes k).cfg = _
    rw [later,effect_cfg (step_effect s choice)]

lemma run_log : ∃ events,(s.run choices).log = s.log ++ events := by
  induction choices generalizing s with
  | nil => exact ⟨[],(append_nil _).symm⟩
  | cons choice rest later =>
    obtain ⟨first,once⟩ := effect_log (step_effect s choice)
    obtain ⟨second,twice⟩ := later (s := s.step choice)
    refine ⟨first ++ second,?_⟩
    change ((s.step choice).run rest).log = _
    rw [twice,once,append_assoc]

lemma run_starvations : s.starvations ≤ (s.run choices).starvations := by
  obtain ⟨events,log⟩ := run_log (s := s) choices
  rw [System.starvations,System.starvations,log,countP_append]
  exact Nat.le_add_right _ _

lemma run_accepted (lane : Fin n) : s.acceptedInto lane ⊆ (s.run choices).acceptedInto lane := by
  obtain ⟨events,log⟩ := run_log (s := s) choices
  rw [System.acceptedInto,System.acceptedInto,log,filterMap_append]
  exact subset_append_left _ _

def Busy (i j : Fin n) (s : System n) (stretch : List Choice) : Prop :=
  Interaction.Throughout System.step
    (fun s => (s.scheduler.lanes i).tasks ≠ [] ∧ (s.scheduler.lanes j).tasks ≠ []) s stretch

lemma balanced_run (different : i ≠ j) {stretch : List Choice} (busy : Busy i j s stretch)
    (calm : (s.run stretch).starvations = s.starvations) : System.Balanced i j s (s.run stretch) := by
  induction stretch generalizing s with
  | nil => exact System.Balanced.same (fun _ => rfl) (fun _ => rfl) rfl rfl
  | cons choice rest later =>
    obtain ⟨⟨left,right⟩,behind⟩ := Interaction.Throughout.cons.mp busy
    obtain ⟨left',right'⟩ := behind [] nil_prefix
    have effect := step_effect s choice
    have first := run_starvations (s := s) [choice]
    change s.starvations ≤ (s.step choice).starvations at first
    have second := run_starvations (s := s.step choice) rest
    change ((s.step choice).run rest).starvations = s.starvations at calm
    have step := System.Balanced.effect different effect (by omega) left left' right right'
    exact step.trans (later behind (by omega)) (effect_cfg effect)

lemma Priced.run (priced : Priced s) (accounted : Accounted s) (choices : List Choice) : Priced (s.run choices) := by
  induction choices generalizing s with
  | nil => exact priced
  | cons choice rest later => exact later (priced.effect accounted (step_effect s choice)) (accounted.step choice)

end Stretch

section Bound

variable {i j : Fin n}

def turn (s : DRRScheduler n) (i : Fin n) : Int := if s.inTurn i then 1 else 0

lemma turn_bounds (different : i ≠ j) (s : DRRScheduler n) :
    turn s i - lead i j s ≤ (if i < j then 0 else 1) ∧ lead i j s + turn s j ≤ if i < j then 1 else 0 := by
  have apart : (i : Nat) ≠ j := fun same => different (Fin.ext same)
  unfold turn lead between DRRScheduler.inTurn DRRScheduler.position
  generalize s.quantumAdded = added
  cases added <;>
    simp only [Bool.false_eq_true,and_false,decide_false,if_false,and_true,decide_eq_true_eq,if_true,Fin.ext_iff,Fin.lt_def] <;>
    split_ifs <;> omega

lemma lead_swap (different : i ≠ j) (s : DRRScheduler n) : lead j i s = -lead i j s := by
  unfold lead
  rcases lt_or_gt_of_ne different with less | more
  · rw [if_pos less,if_neg (not_lt.mpr (le_of_lt less))]
  · rw [if_pos more,if_neg (not_lt.mpr (le_of_lt more)),Int.neg_neg]

lemma System.Balanced.symm {s t : System n} (different : i ≠ j) (balanced : Balanced i j s t) : Balanced j i s t := by
  obtain ⟨g,h,left,right,difference⟩ := balanced
  refine ⟨h,g,right,left,?_⟩
  rw [lead_swap different,lead_swap different]
  omega

lemma high_turn {M : Int} {s : DRRScheduler n} (deficits : Deficits M s) (i : Fin n) :
    (s.lanes i).deficit ≤ M - 1 + (s.lanes i).cfg.quantum * turn s i := by
  have high := deficits.high i
  unfold turn
  split_ifs at high ⊢ <;> omega

lemma ahead {M : Int} {s t : System n} (different : i ≠ j) (balanced : System.Balanced i j s t)
    (before : Deficits M s.scheduler) (after : Deficits M t.scheduler)
    (cfg : ∀ k,(t.scheduler.lanes k).cfg = (s.scheduler.lanes k).cfg) :
    ((t.served i - s.served i : Int) : ℚ) / (s.scheduler.lanes i).cfg.quantum -
        ((t.served j - s.served j : Int) : ℚ) / (s.scheduler.lanes j).cfg.quantum ≤
      1 + (M : ℚ) / (s.scheduler.lanes i).cfg.quantum + (M : ℚ) / (s.scheduler.lanes j).cfg.quantum := by
  obtain ⟨g,h,left,right,difference⟩ := balanced
  have start := (turn_bounds different s.scheduler).1
  have stop := (turn_bounds different t.scheduler).2
  have rounds : g - h + turn s.scheduler i + turn t.scheduler j ≤ 1 := by
    split_ifs at start stop <;> omega
  have firstHigh := high_turn before i
  have firstLow := after.low i
  have secondHigh := high_turn after j
  have secondLow := before.low j
  have positive := before.quanta i
  have positive' := before.quanta j
  rw [cfg] at secondHigh
  generalize (s.scheduler.lanes i).cfg.quantum = q at *
  generalize (s.scheduler.lanes j).cfg.quantum = r at *
  generalize t.served i - s.served i = x at *
  generalize t.served j - s.served j = y at *
  have upper : x ≤ M + q * (g + turn s.scheduler i) := by
    rw [Int.mul_add]
    omega
  have lower : r * (h - turn t.scheduler j) - M ≤ y := by
    rw [Int.mul_sub]
    omega
  have one : (x : ℚ) / q ≤ M / q + (g + turn s.scheduler i) := by
    have q0 : (0 : ℚ) < q := by exact_mod_cast positive
    have cast : (x : ℚ) ≤ M + q * (g + turn s.scheduler i) := by exact_mod_cast upper
    rw [div_le_iff₀ q0,add_mul,div_mul_cancel₀ _ (ne_of_gt q0)]
    linarith
  have two : (h - turn t.scheduler j : ℚ) - M / r ≤ y / r := by
    have r0 : (0 : ℚ) < r := by exact_mod_cast positive'
    have cast : (r : ℚ) * (h - turn t.scheduler j) - M ≤ y := by exact_mod_cast lower
    rw [le_div_iff₀ r0,sub_mul,div_mul_cancel₀ _ (ne_of_gt r0)]
    linarith
  have three : (g : ℚ) - h + turn s.scheduler i + turn t.scheduler j ≤ 1 := by exact_mod_cast rounds
  linarith

end Bound

def System.servedIn (s : System n) (stretch : List Choice) (lane : Fin n) : Int := (s.run stretch).served lane - s.served lane

section Start

variable {lanes : List Lane} (fresh : ∀ l ∈ lanes, ∃ cfg, newLane cfg = .ok l) {scheduler : DRRScheduler lanes.length}
  (made : newDRRScheduler lanes = .ok scheduler) (requests : List Request)

include fresh made

lemma priced_start : Priced (System.start scheduler requests) := by
  constructor
  · intro lane t member
    cases member
  · intro M large _
    constructor
    · intro i
      exact (start_fresh fresh made i).2.2
    · intro i
      exact (start_fresh fresh made i).2.1.symm.le
    · intro i
      have zero := (start_fresh fresh made i).2.1
      have positive := (start_fresh fresh made i).2.2
      change (scheduler.lanes i).deficit ≤ M - 1 + (if scheduler.inTurn i then (scheduler.lanes i).cfg.quantum else 0)
      split_ifs <;> omega

/-- In a stretch without returns for starvation, two lanes that are never empty are served
in proportion to their quanta, up to one quantum and the greatest cost for each. -/
theorem fair_stretch (earlier stretch : List Choice) (i j : Fin lanes.length) (M : Int)
    (most : ∀ lane, ∀ t ∈ (((System.start scheduler requests).run earlier).run stretch).acceptedInto lane, t.cost ≤ M)
    (busy : Busy i j ((System.start scheduler requests).run earlier) stretch)
    (calm : (((System.start scheduler requests).run earlier).run stretch).starvations =
      ((System.start scheduler requests).run earlier).starvations) :
    |(((System.start scheduler requests).run earlier).servedIn stretch i : ℚ) / (scheduler.lanes i).cfg.quantum -
        (((System.start scheduler requests).run earlier).servedIn stretch j : ℚ) / (scheduler.lanes j).cfg.quantum| ≤
      1 + (M : ℚ) / (scheduler.lanes i).cfg.quantum + (M : ℚ) / (scheduler.lanes j).cfg.quantum := by
  have accounted := (accounted_start fresh made requests).run earlier
  have priced := (priced_start fresh made requests).run (accounted_start fresh made requests) earlier
  have cfg : ∀ k,(((System.start scheduler requests).run earlier).scheduler.lanes k).cfg = (scheduler.lanes k).cfg := run_cfg earlier
  generalize (System.start scheduler requests).run earlier = s at *
  obtain ⟨left,_⟩ := busy [] nil_prefix
  have most' := fun lane t member => most lane t (run_accepted stretch lane member)
  -- the lanes hold a task, so there is a cost
  have large : 1 ≤ M := by
    obtain ⟨t,member⟩ := exists_mem_of_ne_nil _ left
    have cost := priced.costs accounted most' i t member
    omega
  have before := priced.bounded M large most'
  have after := (priced.run accounted stretch).bounded M large most
  rw [← cfg,← cfg]
  by_cases same : i = j
  · subst same
    have positive : 0 < (s.scheduler.lanes i).cfg.quantum := by exact_mod_cast before.quanta i
    have some_ : 0 < M := by exact_mod_cast large
    rw [sub_self]
    positivity
  · have balanced := balanced_run same busy calm
    have one := ahead same balanced before after (run_cfg stretch)
    have two := ahead (Ne.symm same) (balanced.symm same) before after (run_cfg stretch)
    rw [abs_le]
    constructor
    · unfold System.servedIn
      linarith
    · exact one

end Start

/-- The worker is served from the first lane. -/
theorem one_served_fairly :
    |(((System.start twoScheduler fourCalls).run (turns [(0,3),(1,3),(2,3)])).servedIn (turns [(3,8)]) ⟨0,by decide⟩ : ℚ) / (2 : Int) -
        (((System.start twoScheduler fourCalls).run (turns [(0,3),(1,3),(2,3)])).servedIn (turns [(3,8)]) ⟨1,by decide⟩ : ℚ) / (1 : Int)| ≤
      1 + ((1 : Int) : ℚ) / (2 : Int) + ((1 : Int) : ℚ) / (1 : Int) := by
  apply fair_stretch twoLanes_fresh twoLanes_made fourCalls (turns [(0,3),(1,3),(2,3)]) (turns [(3,8)])
    ⟨0,by decide⟩ ⟨1,by decide⟩ 1
  · decide
  · have busy : ∀ done ∈ (turns [(3,8)]).inits,
        ((done.foldl System.step ((System.start twoScheduler fourCalls).run (turns [(0,3),(1,3),(2,3)]))).scheduler.lanes
            ⟨0,by decide⟩).tasks ≠ [] ∧
          ((done.foldl System.step ((System.start twoScheduler fourCalls).run (turns [(0,3),(1,3),(2,3)]))).scheduler.lanes
            ⟨1,by decide⟩).tasks ≠ [] := by decide +kernel
    intro done early
    exact busy done ((mem_inits _ _).mpr early)
  · decide

end Tempest.Lanes
