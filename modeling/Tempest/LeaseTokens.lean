import Tempest.Leasing

/-! The lease tokens of the queue. `Dequeue` and `DequeueAny` draw a token for each
lease; next to the store stand the tokens of the leases of each item, the latest
one first. A new item under a key has no leases yet. -/
open List
namespace Tempest.LeaseTokens
open Interaction Filing

inductive Op
  | enqueue (item : QueueItem)
  | dequeue (order : List String) (ns : Namespace) (limit : Int) (now : Time)
  | dequeueAny (order : List String) (limit : Int) (now : Time)
  | releaseStep (now : Time) (ns : Namespace) (runID stepID : String)
  | requeueWithDelay (ns : Namespace) (runID stepID : String) (visibleAt : Time) (attempt : Int)
  | completeStep (ns : Namespace) (runID stepID leaseToken : String)

structure Desk where
  store : Store := .new
  drawn : Nat := 0
  tokens : String → List String := fun _ => []

namespace Desk

def put (d : Desk) : Except Classified Store → Desk
  | .ok store => { d with store }
  | .error _ => d

def handOut (d : Desk) (out : List QueueLease × Store) : Desk where
  store := out.2
  drawn := d.drawn + out.1.length
  tokens := fun q => ((out.1.filter (fun l => l.item.key = q)).map QueueLease.token).reverse ++ d.tokens q

end Desk

variable (token : Nat → String)

def step (d : Desk) : Op → Desk
  | .enqueue item => { d with store := d.store.enqueue item, tokens := Function.update d.tokens item.key [] }
  | .dequeue order ns limit now => d.handOut (d.store.dequeue order (fun i => token (d.drawn + i)) ns limit now)
  | .dequeueAny order limit now => d.handOut (d.store.dequeueAny order (fun i => token (d.drawn + i)) limit now)
  | .releaseStep now ns runID stepID => d.put (d.store.releaseStep now ns runID stepID)
  | .requeueWithDelay ns runID stepID visibleAt attempt =>
    d.put (d.store.requeueWithDelay ns runID stepID visibleAt attempt)
  | .completeStep ns runID stepID leaseToken => d.put (d.store.completeStep ns runID stepID leaseToken)

def Removes (d : Desk) (op : Op) (q : String) : Prop :=
  (d.store.queue.lookup q).isSome ∧ (step token d op).store.queue.lookup q = none

instance (d : Desk) (op : Op) (q : String) : Decidable (Removes token d op q) := inferInstanceAs (Decidable (_ ∧ _))

/-- `CompleteStep` removes the item only with the token of its most recent lease, and
never with the token of an earlier one. -/
def Fenced (d : Desk) : Op → Prop
  | .completeStep ns runID stepID leaseToken =>
    let q := queueKey ns runID stepID
    (Removes token d (.completeStep ns runID stepID leaseToken) q → (d.tokens q).head? = some leaseToken) ∧
      (leaseToken ∈ (d.tokens q).tail → ¬ Removes token d (.completeStep ns runID stepID leaseToken) q)
  | .enqueue _ | .dequeue .. | .dequeueAny .. | .releaseStep .. | .requeueWithDelay .. => True

instance (d : Desk) : ∀ op, Decidable (Fenced token d op)
  | .completeStep .. => inferInstanceAs (Decidable (_ ∧ _))
  | .enqueue _ | .dequeue .. | .dequeueAny .. | .releaseStep .. | .requeueWithDelay .. => .isTrue trivial

def Current (d : Desk) : Op → Prop
  | .completeStep ns runID stepID leaseToken =>
    let q := queueKey ns runID stepID
    (d.store.queue.lookup q).isSome → (d.tokens q).head? = some leaseToken
  | .enqueue _ | .dequeue .. | .dequeueAny .. | .releaseStep .. | .requeueWithDelay .. => True

/-- The tokens of an item have been drawn, and are pairwise distinct. -/
structure Distinct (d : Desk) : Prop where
  nodup : ∀ q, (d.tokens q).Nodup
  drawn : ∀ q, ∀ t ∈ d.tokens q, ∃ i < d.drawn, t = token i

variable {token}

lemma distinct_new : Distinct token {} := ⟨fun _ => nodup_nil,fun _ _ member => by cases member⟩

variable {d : Desk}

lemma Distinct.put (distinct : Distinct token d) (result : Except Classified Store) :
    Distinct token (d.put result) := by
  cases result with
  | ok store => exact ⟨distinct.nodup,distinct.drawn⟩
  | error e => exact distinct

lemma Distinct.enqueue (distinct : Distinct token d) (item : QueueItem) :
    Distinct token (step token d (.enqueue item)) := by
  have tokens : ∀ q,(step token d (.enqueue item)).tokens q = if q = item.key then [] else d.tokens q := by
    intro q
    exact Function.update_apply d.tokens item.key [] q
  constructor
  · intro q
    rw [tokens]
    split_ifs
    · exact nodup_nil
    · exact distinct.nodup q
  · intro q t member
    rw [tokens] at member
    split_ifs at member
    · cases member
    · exact distinct.drawn q t member

lemma Distinct.handOut (injective : Function.Injective token) (distinct : Distinct token d)
    {out : List QueueLease × Store}
    (numbered : out.1.map QueueLease.token = (List.range out.1.length).map (fun i => token (d.drawn + i))) :
    Distinct token (d.handOut out) := by
  have fresh : ∀ l ∈ out.1,∃ i < out.1.length,l.token = token (d.drawn + i) := by
    intro l member
    have listed : l.token ∈ out.1.map QueueLease.token := mem_map.mpr ⟨l,member,rfl⟩
    rw [numbered] at listed
    obtain ⟨i,below,same⟩ := mem_map.mp listed
    exact ⟨i,mem_range.mp below,same.symm⟩
  have apart : (out.1.map QueueLease.token).Nodup := by
    rw [numbered]
    apply nodup_range.map
    intro i j same
    have equal := injective same
    omega
  constructor
  · intro q
    apply List.Nodup.append
    · rw [nodup_reverse]
      exact apart.sublist (filter_sublist.map _)
    · exact distinct.nodup q
    · intro t new old
      obtain ⟨l,member,rfl⟩ := mem_map.mp (mem_reverse.mp new)
      obtain ⟨i,_,drawn⟩ := fresh l (mem_filter.mp member).1
      obtain ⟨j,earlier,same⟩ := distinct.drawn q l.token old
      have equal := injective (drawn.symm.trans same)
      omega
  · intro q t member
    rcases mem_append.mp member with new | old
    · obtain ⟨l,listed,rfl⟩ := mem_map.mp (mem_reverse.mp new)
      obtain ⟨i,below,drawn⟩ := fresh l (mem_filter.mp listed).1
      exact ⟨d.drawn + i,Nat.add_lt_add_left below d.drawn,drawn⟩
    · obtain ⟨i,earlier,same⟩ := distinct.drawn q t old
      exact ⟨i,Nat.lt_add_right _ earlier,same⟩

lemma Distinct.step (injective : Function.Injective token) (distinct : Distinct token d) (op : Op) :
    Distinct token (step token d op) := by
  cases op with
  | enqueue item => exact distinct.enqueue item
  | dequeue order ns limit now
  | dequeueAny order limit now => exact distinct.handOut injective (Store.dequeueLoop_tokens _ _ _ _ _ [] rfl)
  | releaseStep now ns runID stepID
  | requeueWithDelay ns runID stepID visibleAt attempt
  | completeStep ns runID stepID leaseToken => exact distinct.put _

lemma completeStep_removes (d : Desk) (ns : Namespace) (runID stepID leaseToken : String) :
    Removes token d (.completeStep ns runID stepID leaseToken) (queueKey ns runID stepID) ↔
      (d.store.queue.lookup (queueKey ns runID stepID)).isSome := by
  constructor
  · exact fun removes => removes.1
  · intro present
    refine ⟨present,?_⟩
    obtain ⟨item,found⟩ := Option.isSome_iff_exists.mp present
    simp [LeaseTokens.step,Store.completeStep,found,Desk.put]

lemma Distinct.fenced_iff (distinct : Distinct token d) (op : Op) : Fenced token d op ↔ Current d op := by
  cases op with
  | completeStep ns runID stepID leaseToken =>
    simp only [Fenced,Current,completeStep_removes]
    constructor
    · exact fun fenced => fenced.1
    · intro current
      refine ⟨current,?_⟩
      intro earlier present
      obtain ⟨rest,split⟩ := head?_eq_some_iff.mp (current present)
      have nodup := distinct.nodup (queueKey ns runID stepID)
      rw [split] at nodup earlier
      exact (nodup_cons.mp nodup).1 earlier
  | _ => exact Iff.rfl

/-- If all tokens are distinct, they fence completion in exactly those histories in
which every worker that completes a queued item has the most recent lease of it. -/
theorem tokens_fence_iff (injective : Function.Injective token) (ops : List Op) :
    Along (step token) (Fenced token) {} ops ↔ Along (step token) Current {} ops := by
  apply Along.congr (P := Distinct token)
  · intro d op distinct _
    exact distinct.step injective op
  · intro d op distinct
    exact distinct.fenced_iff op
  · exact distinct_new

def tokenOf (i : Nat) : String := "lease-" ++ itoa i

lemma tokenOf_injective : Function.Injective tokenOf := by
  intro i j same
  have digits : itoa i = itoa j := by
    apply String.toList_injective
    simpa [tokenOf] using congrArg String.toList same
  exact Int.ofNat.inj (itoa_injective digits)

def itemA : QueueItem := ⟨"r1","ns","a",0,0,0⟩

theorem own_token_fences :
    Along (step tokenOf) (Fenced tokenOf) {}
      [.enqueue itemA,.dequeueAny [] 1 second,.dequeueAny [] 1 (40 * second),.completeStep "ns" "r1" "a" "lease-1"] :=
  (tokens_fence_iff tokenOf_injective _).mpr ⟨trivial,trivial,trivial,fun _ => by decide,trivial⟩

/-- The lease of the first worker has run out and a second worker has the item, but the
first worker completes it. -/
theorem stale_token_completes :
    ¬ Along (step tokenOf) (Fenced tokenOf) {}
      [.enqueue itemA,.dequeueAny [] 1 second,.dequeueAny [] 1 (40 * second),.completeStep "ns" "r1" "a" "lease-0"] := by
  decide

end Tempest.LeaseTokens
