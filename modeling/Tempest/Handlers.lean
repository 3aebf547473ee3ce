import Tempest.Lib.Interaction

/-! The bus of `internal/events`. `Publish` appends the handlers of `@all` to themselves before
it calls them, so each event doubles them for good. -/
open List
namespace Tempest.Events
open Interaction

structure Event where
  type : String
  payload : String
  deriving DecidableEq

variable {H : Type}

structure Bus (H : Type) where
  handlers : String → List H
  queue : List Event
  maxQueue : Int

namespace Bus

def new (maxQueue : Int) : Bus H := ⟨fun _ => [],[],if maxQueue ≤ 0 then 1000 else maxQueue⟩

def subscribe (b : Bus H) (eventType : String) (handler : H) : Bus H :=
  { b with handlers := Function.update b.handlers eventType (b.handlers eventType ++ [handler]) }

def publish (b : Bus H) (event : Event) : Bus H × List H :=
  let handlers := b.handlers event.type
  let allHandlers := b.handlers "@all" ++ b.handlers "@all"
  ({ b with handlers := Function.update b.handlers "@all" allHandlers },handlers ++ allHandlers)

def enqueue (b : Bus H) (event : Event) : Bus H :=
  { b with queue := (if b.maxQueue ≤ b.queue.length then b.queue.tail else b.queue) ++ [event] }

def publishAll : Bus H → List Event → Bus H × List (Event × List H)
  | b, [] => (b,[])
  | b, event :: rest =>
    let (next,invoked) := b.publish event
    let (last,others) := publishAll next rest
    (last,(event,invoked) :: others)

def drain (b : Bus H) : Bus H × List (Event × List H) := publishAll { b with queue := [] } b.queue

def subscriberCount (b : Bus H) (eventType : String) : Nat := (b.handlers eventType).length

end Bus

inductive Call (H : Type)
  | subscribe (eventType : String) (handler : H)
  | publish (event : Event)
  | enqueue (event : Event)
  | drain

def Bus.call (b : Bus H) : Call H → Bus H × List (Event × List H)
  | .subscribe eventType handler => (b.subscribe eventType handler,[])
  | .publish event => b.publishAll [event]
  | .enqueue event => (b.enqueue event,[])
  | .drain => b.drain

def Bus.delivered (b : Bus H) : Call H → List Event
  | .publish event => [event]
  | .drain => b.queue
  | _ => []

/-- The bus beside the `Subscribe` calls so far. -/
structure History (H : Type) where
  bus : Bus H
  subscribed : String → List H := fun _ => []

def History.step (h : History H) (c : Call H) : History H where
  bus := (h.bus.call c).1
  subscribed :=
    match c with
    | .subscribe eventType handler => Function.update h.subscribed eventType (h.subscribed eventType ++ [handler])
    | _ => h.subscribed

/-- The call publishes its event, or the queued ones in their order. Every one of them reaches
the handlers subscribed to its type and those subscribed to `@all` once each, and the counts
are right after it. -/
structure Once (h : History H) (c : Call H) : Prop where
  delivered : (h.bus.call c).2.map Prod.fst = h.bus.delivered c
  invoked : ∀ entry ∈ (h.bus.call c).2, entry.2.Perm (h.subscribed entry.1.type ++ h.subscribed "@all")
  counts : ∀ eventType, (h.step c).bus.subscriberCount eventType = ((h.step c).subscribed eventType).length

lemma publishAll_events (b : Bus H) (events : List Event) : (b.publishAll events).2.map Prod.fst = events := by
  induction events generalizing b with
  | nil => rfl
  | cons event rest ih => exact congrArg (cons event) (ih (b.publish event).1)

lemma call_events (b : Bus H) (c : Call H) : (b.call c).2.map Prod.fst = b.delivered c := by
  cases c with
  | publish event => exact publishAll_events b [event]
  | drain => exact publishAll_events { b with queue := [] } b.queue
  | _ => rfl

lemma publishAll_none {b : Bus H} (none_ : b.handlers "@all" = []) (events : List Event) :
    b.publishAll events = (b,events.map (fun event => (event,b.handlers event.type))) := by
  induction events with
  | nil => rfl
  | cons event rest ih =>
    have same : b.publish event = (b,b.handlers event.type) := by
      rw [Bus.publish,none_,append_nil,append_nil,← none_,Function.update_eq_self]
    rw [Bus.publishAll,same]
    dsimp only
    rw [ih]
    rfl

lemma call_publishAll (b : Bus H) (c : Call H) (some_ : b.delivered c ≠ []) :
    ∃ b' : Bus H,b'.handlers = b.handlers ∧ b.call c = b'.publishAll (b.delivered c) := by
  cases c with
  | subscribe eventType handler => exact absurd rfl some_
  | publish event => exact ⟨b,rfl,rfl⟩
  | enqueue event => exact absurd rfl some_
  | drain => exact ⟨{ b with queue := [] },rfl,rfl⟩

lemma step_handlers {h : History H} (same : h.bus.handlers = h.subscribed) {c : Call H}
    (quiet : h.bus.delivered c ≠ [] → h.subscribed "@all" = []) : (h.step c).bus.handlers = (h.step c).subscribed := by
  have published : ∀ b : Bus H,b.handlers = h.bus.handlers → (h.bus.delivered c ≠ [] → (b.publishAll (h.bus.delivered c)).1.handlers = h.subscribed) := by
    intro b equal some_
    rw [publishAll_none (by rw [equal,same]; exact quiet some_),equal,same]
  cases c with
  | subscribe eventType handler =>
    unfold History.step Bus.call Bus.subscribe
    rw [same]
  | publish event => exact published h.bus rfl (cons_ne_nil _ _)
  | enqueue event => exact same
  | drain =>
    by_cases empty : h.bus.queue = []
    · unfold History.step Bus.call Bus.drain
      rw [empty]
      exact same
    · exact published { h.bus with queue := [] } rfl empty

lemma once_iff {h : History H} (same : h.bus.handlers = h.subscribed) (c : Call H) :
    Once h c ↔ (h.bus.delivered c ≠ [] → h.subscribed "@all" = []) := by
  constructor
  · intro once some_
    obtain ⟨b,equal,result⟩ := call_publishAll h.bus c some_
    obtain ⟨event,rest,events⟩ := exists_cons_of_ne_nil some_
    have first : (event,(b.publish event).2) ∈ (h.bus.call c).2 := by
      rw [result,events]
      exact mem_cons_self
    have lengths := (once.invoked _ first).length_eq
    simp only [Bus.publish,equal,same,length_append] at lengths
    exact eq_nil_of_length_eq_zero (by omega)
  · intro quiet
    refine ⟨call_events h.bus c,?_,?_⟩
    · by_cases some_ : h.bus.delivered c = []
      · have none_ : (h.bus.call c).2 = [] := map_eq_nil_iff.mp ((call_events h.bus c).trans some_)
        rw [none_]
        exact fun entry member => nomatch member
      · obtain ⟨b,equal,result⟩ := call_publishAll h.bus c some_
        rw [result,publishAll_none (by rw [equal,same]; exact quiet some_),quiet some_]
        intro entry member
        obtain ⟨event,-,rfl⟩ := mem_map.mp member
        rw [equal,same,append_nil]
    · intro eventType
      rw [Bus.subscriberCount,step_handlers same quiet]

/-- In a run every handler is called once for every event exactly if no event is published or
drained while a handler is subscribed to `@all`. -/
theorem invoked_once_iff (maxQueue : Int) (calls : List (Call H)) :
    Along History.step Once ⟨Bus.new maxQueue,fun _ => []⟩ calls ↔
      Along History.step (fun h c => h.bus.delivered c ≠ [] → h.subscribed "@all" = []) ⟨Bus.new maxQueue,fun _ => []⟩ calls := by
  apply Along.congr (P := fun h => h.bus.handlers = h.subscribed)
  · exact fun h c same quiet => step_handlers same quiet
  · exact fun h c same => once_iff same c
  · rfl

/-- One handler for all events is called twice for the first one. -/
theorem all_handler_called_twice :
    ¬ Along History.step Once ⟨Bus.new 0,fun _ => []⟩ [Call.subscribe "@all" (0 : Nat),Call.publish ⟨"a",""⟩] := by
  rintro ⟨-,once,-⟩
  have invoked := once.invoked (⟨"a",""⟩,[0,0]) mem_cons_self
  exact absurd invoked.length_eq (by decide)

end Tempest.Events
