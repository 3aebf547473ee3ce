import Mathlib.Data.Finset.Card

/-! Callers that wait for something that is handed to them through a channel of their own,
which holds one token. A waiting caller takes the token or gives up; one that has given up
still has to leave the queue, and until then it can be handed the token all the same. -/
open List
namespace Handoff
open Function

/-- Where a caller is. The kind says what it asked for. -/
inductive Phase (κ : Type)
  | fresh
  | waiting (kind : κ) (token : Bool)
  | leaving (kind : κ) (token : Bool)
  | owner (kind : κ)
  | returned
  deriving DecidableEq

variable {C κ : Type}

namespace Phase

def signal : Phase κ → Phase κ
  | .waiting kind _ => .waiting kind true
  | .leaving kind _ => .leaving kind true
  | p => p

def holds (kind : κ) (p : Phase κ) : Prop := p = .owner kind ∨ p = .waiting kind true

def queued (kind : κ) (p : Phase κ) : Prop := p = .waiting kind false ∨ p = .leaving kind false

instance [DecidableEq κ] (kind : κ) (p : Phase κ) : Decidable (p.holds kind) := inferInstanceAs (Decidable (_ ∨ _))

instance [DecidableEq κ] (kind : κ) (p : Phase κ) : Decidable (p.queued kind) := inferInstanceAs (Decidable (_ ∨ _))

end Phase

section Queues

variable {kind : κ} {waiters rest : List C} {phase : C → Phase κ} {c w : C} {p : Phase κ} {n : Nat}

def Counted (kind : κ) (n : Nat) (phase : C → Phase κ) : Prop :=
  ∃ holders : Finset C,(∀ c,c ∈ holders ↔ (phase c).holds kind) ∧ holders.card = n

lemma Counted.pos (counted : Counted kind n phase) (holds : (phase c).holds kind) : 0 < n := by
  obtain ⟨holders,all,rfl⟩ := counted
  exact Finset.card_pos.mpr ⟨c,(all c).mpr holds⟩

lemma Counted.none_holds (counted : Counted kind 0 phase) (c : C) : ¬(phase c).holds kind := by
  intro holds
  exact absurd (counted.pos holds) (lt_irrefl 0)

lemma Counted.unique (counted : Counted kind 1 phase) {a b : C} (first : (phase a).holds kind)
    (second : (phase b).holds kind) : a = b := by
  obtain ⟨holders,all,card⟩ := counted
  exact Finset.card_le_one.mp (le_of_eq card) a ((all a).mpr first) b ((all b).mpr second)

variable [DecidableEq C]

lemma update_ne {α : Type} {at_ : C → α} {x y : α} {d : C} (here : x ≠ y) (there : at_ d ≠ y) :
    update at_ c x d ≠ y := by
  by_cases same : d = c
  · rw [same,update_self]
    exact here
  · rw [update_of_ne same]
    exact there

/-- The callers of a kind that are queued are those in a list. -/
structure Lined (kind : κ) (waiters : List C) (phase : C → Phase κ) : Prop where
  queue : ∀ c,c ∈ waiters ↔ (phase c).queued kind
  distinct : waiters.Nodup

lemma Lined.keep (lined : Lined kind waiters phase) (same : p.queued kind ↔ (phase c).queued kind) :
    Lined kind waiters (update phase c p) := by
  refine ⟨fun d => ?_,lined.distinct⟩
  by_cases here : d = c
  · rw [here,update_self,same]
    exact lined.queue c
  · rw [update_of_ne here]
    exact lined.queue d

lemma Lined.join (lined : Lined kind waiters phase) (before : ¬(phase c).queued kind) (after : p.queued kind) :
    Lined kind (waiters ++ [c]) (update phase c p) := by
  have absent := mt (lined.queue c).mp before
  refine ⟨fun d => ?_,?_⟩
  · rw [mem_append,mem_singleton,lined.queue]
    by_cases here : d = c
    · rw [here,update_self]
      exact ⟨fun _ => after,fun _ => .inr rfl⟩
    · rw [update_of_ne here]
      exact ⟨fun member => member.resolve_right here,.inl⟩
  · rw [nodup_append]
    refine ⟨lined.distinct,nodup_singleton c,fun a member b single => ?_⟩
    rintro rfl
    exact absent (mem_singleton.mp single ▸ member)

lemma Lined.leave (lined : Lined kind waiters phase) (after : ¬p.queued kind) :
    Lined kind (waiters.erase c) (update phase c p) := by
  refine ⟨fun d => ?_,lined.distinct.erase c⟩
  rw [lined.distinct.mem_erase_iff,lined.queue]
  by_cases here : d = c
  · rw [here,update_self]
    exact ⟨fun both => absurd rfl both.1,fun queued => absurd queued after⟩
  · rw [update_of_ne here]
    exact ⟨And.right,fun queued => ⟨here,queued⟩⟩

lemma Lined.pop (lined : Lined kind (w :: rest) phase) (after : ¬p.queued kind) :
    Lined kind rest (update phase w p) := by
  have left := lined.leave (c := w) after
  rwa [erase_cons_head] at left

lemma Counted.keep (counted : Counted kind n phase) (same : p.holds kind ↔ (phase c).holds kind) :
    Counted kind n (update phase c p) := by
  obtain ⟨holders,all,card⟩ := counted
  refine ⟨holders,fun d => ?_,card⟩
  by_cases here : d = c
  · rw [here,update_self,same]
    exact all c
  · rw [update_of_ne here]
    exact all d

lemma Counted.gain (counted : Counted kind n phase) (before : ¬(phase c).holds kind) (after : p.holds kind) :
    Counted kind (n + 1) (update phase c p) := by
  obtain ⟨holders,all,card⟩ := counted
  refine ⟨insert c holders,fun d => ?_,by rw [Finset.card_insert_of_notMem (mt (all c).mp before),card]⟩
  rw [Finset.mem_insert]
  by_cases here : d = c
  · rw [here,update_self]
    exact ⟨fun _ => after,fun _ => .inl rfl⟩
  · rw [update_of_ne here,all]
    exact ⟨fun member => member.resolve_left here,.inr⟩

lemma Counted.lose (counted : Counted kind (n + 1) phase) (before : (phase c).holds kind) (after : ¬p.holds kind) :
    Counted kind n (update phase c p) := by
  obtain ⟨holders,all,card⟩ := counted
  refine ⟨holders.erase c,fun d => ?_,by rw [Finset.card_erase_of_mem ((all c).mpr before),card]; rfl⟩
  rw [Finset.mem_erase]
  by_cases here : d = c
  · rw [here,update_self]
    exact ⟨fun both => absurd rfl both.1,fun holds => absurd holds after⟩
  · rw [update_of_ne here,all]
    exact ⟨And.right,fun holds => ⟨here,holds⟩⟩

end Queues

end Handoff
