import Mathlib.Data.List.Dedup
import Mathlib.Data.List.Infix
import Tempest.Lib.Interaction

/-! The bus of `internal/eventbus` with its goroutines: the callers of `Publish`, `Subscribe`,
`SubscribeGroup` and `Stop`, the workers that dispatch and the loop of each subscription. A
step is what one goroutine does between two points where another can come in between: one
locked section, one channel operation, one pass through the map under the read lock, one call of
a handler. A subscription is known by its place in the order of registration, which stands for
its random id. The state also keeps what the code does not: the subscriptions there were when
a message was accepted, and every delivery that was brought to an end. -/
namespace Tempest.EventBus
open Interaction

abbrev Str := List Char

def matchSegments : List Str → List Str → Bool
  | [], tSeg => tSeg.isEmpty
  | p :: pSeg, [] => (p :: pSeg).all (· == ['#'])
  | p :: pSeg, t :: tSeg =>
    if p == ['#'] then pSeg.isEmpty || (t :: tSeg).tails.any (matchSegments pSeg)
    else if p == ['*'] || p == t then matchSegments pSeg tSeg
    else false

def matchTopic (pattern topic : Str) : Bool :=
  pattern == ['#'] || pattern == topic || matchSegments (pattern.splitOn '.') (topic.splitOn '.')

/-- What a segment of a pattern stands for. -/
def Replaces (p : Str) (segments : List Str) : Prop :=
  p = ['#'] ∨ if p = ['*'] then segments.length = 1 else segments = [p]

def Obtained (pattern topic : List Str) : Prop := ∃ parts,List.Forall₂ Replaces pattern parts ∧ parts.flatten = topic

lemma obtained_cons {p : Str} {pSeg topic : List Str} :
    Obtained (p :: pSeg) topic ↔ ∃ first rest,Replaces p first ∧ Obtained pSeg rest ∧ first ++ rest = topic := by
  constructor
  · rintro ⟨parts,each,rfl⟩
    cases each with
    | @cons _ first _ parts one others => exact ⟨first,parts.flatten,one,⟨parts,others,rfl⟩,rfl⟩
  · rintro ⟨first,rest,one,⟨parts,others,rfl⟩,rfl⟩
    exact ⟨first :: parts,.cons one others,rfl⟩

lemma obtained_nil {topic : List Str} : Obtained [] topic ↔ topic = [] := by
  simp [Obtained,eq_comm]

lemma obtained_self (segments : List Str) : Obtained segments segments := by
  induction segments with
  | nil => exact obtained_nil.mpr rfl
  | cons p rest ih =>
    refine obtained_cons.mpr ⟨[p],rest,.inr ?_,ih,rfl⟩
    split_ifs <;> rfl

lemma obtained_segment {p t : Str} {pSeg tSeg : List Str} (segment : p ≠ ['#']) :
    Obtained (p :: pSeg) (t :: tSeg) ↔ (p = ['*'] ∨ p = t) ∧ Obtained pSeg tSeg := by
  have one : ∀ first,Replaces p first ↔ ∃ s,first = [s] ∧ (p = ['*'] ∨ p = s) := by
    intro first
    rw [Replaces,or_iff_right segment]
    split_ifs with star
    · simp [star,List.length_eq_one_iff]
    · simp [star]
  rw [obtained_cons]
  constructor
  · rintro ⟨first,rest,replaces,others,same⟩
    obtain ⟨s,rfl,here⟩ := (one first).mp replaces
    cases same
    exact ⟨here,others⟩
  · exact fun ⟨here,others⟩ => ⟨[t],tSeg,(one [t]).mpr ⟨t,rfl,here⟩,others,rfl⟩

lemma matchSegments_nil (pSeg : List Str) : matchSegments pSeg [] = pSeg.all (· == ['#']) := by
  cases pSeg <;> rfl

lemma matchSegments_iff (pSeg tSeg : List Str) : matchSegments pSeg tSeg = true ↔ Obtained pSeg tSeg := by
  induction pSeg generalizing tSeg with
  | nil => rw [matchSegments,List.isEmpty_iff,obtained_nil]
  | cons p pSeg ih =>
    cases tSeg with
    | nil =>
      have empty : Replaces p [] ↔ p = ['#'] := by simp [Replaces]
      simp only [obtained_cons,List.append_eq_nil_iff]
      rw [matchSegments,List.all_cons,← matchSegments_nil,Bool.and_eq_true,beq_iff_eq,ih,← empty]
      exact ⟨fun both => ⟨[],[],both.1,both.2,rfl,rfl⟩,fun ⟨_,_,one,others,first,rest⟩ => ⟨first ▸ one,rest ▸ others⟩⟩
    | cons t tSeg =>
      rw [matchSegments]
      split_ifs with hash star
      · -- a hash at the end takes all the rest, another one any part of it
        have any : (∃ first rest,Obtained pSeg rest ∧ first ++ rest = t :: tSeg) ↔
            (t :: tSeg).tails.any (matchSegments pSeg) = true := by
          simp only [List.any_eq_true,List.mem_tails,ih,List.IsSuffix]
          exact ⟨fun ⟨first,rest,obtained,same⟩ => ⟨rest,⟨first,same⟩,obtained⟩,
            fun ⟨rest,⟨first,same⟩,obtained⟩ => ⟨first,rest,obtained,same⟩⟩
        simp only [obtained_cons,Replaces,beq_iff_eq.mp hash,true_or,true_and,any,Bool.or_eq_true,List.isEmpty_iff,or_iff_right_iff_imp]
        rintro rfl
        exact any.mp ⟨_,[],obtained_nil.mpr rfl,List.append_nil _⟩
      · rw [obtained_segment (by simpa using hash),and_iff_right (by simpa using star),ih]
      · refine iff_of_false id fun obtained => star ?_
        simpa using ((obtained_segment (by simpa using hash)).mp obtained).1

/-- A topic matches exactly if its segments are obtained from those of the pattern. -/
theorem matchTopic_iff (pattern topic : Str) :
    matchTopic pattern topic = true ↔ Obtained (pattern.splitOn '.') (topic.splitOn '.') := by
  rw [matchTopic,Bool.or_eq_true,Bool.or_eq_true,beq_iff_eq,beq_iff_eq,matchSegments_iff]
  refine ⟨?_,.inr⟩
  rintro ((rfl | rfl) | obtained)
  · exact obtained_cons.mpr ⟨topic.splitOn '.',[],.inl rfl,obtained_nil.mpr rfl,List.append_nil _⟩
  · exact obtained_self _
  · exact obtained

/-- Who is to get a message once: a broadcast subscription, or a group as a whole. -/
inductive Audience
  | broadcast (id : Nat)
  | group (name : Str)
  deriving DecidableEq

def audienceOf (id : Nat) (group : Str) : Audience := if group = [] then .broadcast id else .group group

/-- The goroutine of a subscription: not yet started, in its select, in `executeHandler`, returned. -/
inductive Loop (M : Type)
  | unborn
  | idle
  | busy (m : M) (attempt : Nat)
  | ended
  deriving DecidableEq

structure Subscription (M : Type) where
  id : Nat
  group : Str
  pattern : Str
  ch : List M
  loop : Loop M
  deriving DecidableEq

def Subscription.audience {M : Type} (x : Subscription M) : Audience := audienceOf x.id x.group

/-- A worker: in its select, with a message before it has the read lock, under the read lock
with the part of the two loops of `dispatch` that is left, returned. -/
inductive Worker (M : Type)
  | idle
  | got (m : M)
  | delivering (m : M) (todo : List Audience)
  | ended
  deriving DecidableEq

def Worker.carries {M : Type} : Worker M → Bool
  | .got _ => true
  | _ => false

/-- A call of `Publish`. An accepted one has the number of subscriptions there were. -/
inductive Call
  | fresh
  | checked
  | accepted (known : Nat)
  | refused
  deriving DecidableEq

/-- The end of one delivery: the handler returned nil, or the message went to the dead letters. -/
structure Outcome (M : Type) where
  id : Nat
  group : Str
  message : M
  handled : Bool
  deriving DecidableEq

structure Bus (M : Type) where
  queueCapacity : Nat
  maxRetries : Int
  inCh : List M
  workers : List (Worker M)
  subs : List (Subscription M)
  groupRoundRobin : Str → UInt64
  closed : Bool
  stopCh : Bool
  cleared : Bool
  returned : Bool
  call : M → Call
  outcomes : List (Outcome M)

inductive Choice (M : Type)
  | publish (m : M)
  | send (m : M)
  | handOver (m : M) (w : Nat)
  | giveUp (m : M)
  | take (w : Nat)
  | lock (w : Nat) (subs : List Nat) (groups : List Str)
  | offer (w : Nat) (parked : Bool)
  | release (w : Nat)
  | leave (w : Nat)
  | subscribe (group pattern : Str)
  | start (s : Nat)
  | receive (s : Nat)
  | attempt (s : Nat) (ok : Bool)
  | exit (s : Nat)
  | stop
  | closeStopCh
  | clear
  | wait
  deriving DecidableEq

namespace Bus

variable {M : Type} [DecidableEq M]

def new (queueCapacity workerCount : Nat) (maxRetries : Int) : Bus M where
  queueCapacity := queueCapacity
  maxRetries := maxRetries
  inCh := []
  workers := List.replicate workerCount .idle
  subs := []
  groupRoundRobin := fun _ => 0
  closed := false
  stopCh := false
  cleared := false
  returned := false
  call := fun _ => .fresh
  outcomes := []

def setCall (b : Bus M) (m : M) (call : Call) : Bus M := { b with call := Function.update b.call m call }

def setWorker (b : Bus M) (w : Nat) (worker : Worker M) : Bus M := { b with workers := b.workers.set w worker }

def setSub (b : Bus M) (s : Nat) (x : Subscription M) : Bus M := { b with subs := b.subs.set s x }

def accept (b : Bus M) (m : M) : Bus M := b.setCall m (.accepted b.subs.length)

def unlocked (b : Bus M) : Bool :=
  b.workers.all fun
    | .delivering _ _ => false
    | _ => true

def subKeys (b : Bus M) : List Nat := if b.cleared then [] else b.subs.map (·.id)

def groupKeys (b : Bus M) : List Str := if b.cleared then [] else ((b.subs.map (·.group)).filter (· ≠ [])).dedup

variable (topic : M → Str)

def matchingSubs (b : Bus M) (m : M) (name : Str) : List (Subscription M) :=
  b.subs.filter fun x => x.group == name && matchTopic x.pattern (topic m)

def target (b : Bus M) (m : M) : Audience → Option (Subscription M)
  | .broadcast id => b.subs[id]?.filter fun x => x.group == [] && matchTopic x.pattern (topic m)
  | .group name =>
    (b.matchingSubs topic m name)[(b.groupRoundRobin name + 1).toNat % (b.matchingSubs topic m name).length]?

def addRoundRobin (b : Bus M) : Audience → Bus M
  | .broadcast _ => b
  | .group name =>
    { b with groupRoundRobin := Function.update b.groupRoundRobin name (b.groupRoundRobin name + 1) }

/-- The select with a default: into the buffer, over to a loop that is parked at an unbuffered
channel, or nowhere. -/
def deliver (b : Bus M) (x : Subscription M) (m : M) (parked : Bool) : Bus M :=
  if x.ch.length < b.queueCapacity then b.setSub x.id { x with ch := x.ch ++ [m] }
  else if b.queueCapacity = 0 ∧ x.loop = .idle ∧ parked then b.setSub x.id { x with loop := .busy m 0 }
  else b

def offer (b : Bus M) (w : Nat) (parked : Bool) : Bus M :=
  match b.workers[w]? with
  | some (.delivering m (key :: todo)) =>
    match b.target topic m key with
    | some x => ((b.addRoundRobin key).deliver x m parked).setWorker w (.delivering m todo)
    | none => b.setWorker w (.delivering m todo)
  | _ => b

def settle (b : Bus M) (x : Subscription M) (m : M) (handled : Bool) : Bus M :=
  { b.setSub x.id { x with loop := .idle } with outcomes := b.outcomes ++ [⟨x.id,x.group,m,handled⟩] }

def attempt (b : Bus M) (s : Nat) (ok : Bool) : Bus M :=
  match b.subs[s]? with
  | some x =>
    match x.loop with
    | .busy m n =>
      if (n : Int) ≤ b.maxRetries then
        if ok then b.settle x m true else b.setSub s { x with loop := .busy m (n + 1) }
      else b.settle x m false
    | _ => b
  | none => b

def subscribeInternal (b : Bus M) (group pattern : Str) : Bus M :=
  if pattern = [] then b
  else if b.closed then b
  else { b with subs := b.subs ++ [⟨b.subs.length,group,pattern,[],.unborn⟩] }

def step (b : Bus M) : Choice M → Bus M
  | .publish m => if b.call m = .fresh then b.setCall m (if b.closed then .refused else .checked) else b
  | .send m =>
    if b.call m = .checked ∧ b.inCh.length < b.queueCapacity then { b.accept m with inCh := b.inCh ++ [m] } else b
  | .handOver m w =>
    if b.call m = .checked ∧ b.inCh = [] ∧ b.workers[w]? = some .idle then (b.accept m).setWorker w (.got m) else b
  | .giveUp m => if b.call m = .checked then b.setCall m .refused else b
  | .take w =>
    match b.workers[w]?,b.inCh with
    | some .idle,m :: rest => { b.setWorker w (.got m) with inCh := rest }
    | _,_ => b
  | .lock w subs groups =>
    match b.workers[w]? with
    | some (.got m) =>
      if subs.Perm b.subKeys ∧ groups.Perm b.groupKeys then
        b.setWorker w (.delivering m (subs.map .broadcast ++ groups.map .group))
      else b
    | _ => b
  | .offer w parked => b.offer topic w parked
  | .release w =>
    match b.workers[w]? with
    | some (.delivering _ []) => b.setWorker w .idle
    | _ => b
  | .leave w => if b.workers[w]? = some .idle ∧ b.stopCh then b.setWorker w .ended else b
  | .subscribe group pattern => if b.unlocked then b.subscribeInternal group pattern else b
  | .start s =>
    match b.subs[s]? with
    | some x => if x.loop = .unborn then b.setSub s { x with loop := .idle } else b
    | none => b
  | .receive s =>
    match b.subs[s]? with
    | some x =>
      match x.loop,x.ch with
      | .idle,m :: rest => b.setSub s { x with ch := rest,loop := .busy m 0 }
      | _,_ => b
    | none => b
  | .attempt s ok => b.attempt s ok
  | .exit s =>
    match b.subs[s]? with
    | some x => if x.loop = .idle ∧ b.stopCh then b.setSub s { x with loop := .ended } else b
    | none => b
  -- A call of `Stop` that finds the bus closed returns at once.
  | .stop => if b.closed then { b with returned := true } else { b with closed := true }
  | .closeStopCh => if b.closed then { b with stopCh := true } else b
  | .clear => if b.stopCh ∧ b.unlocked then { b with cleared := true } else b
  | .wait =>
    if b.cleared ∧ (∀ worker ∈ b.workers,worker = .ended) ∧ (∀ x ∈ b.subs,x.loop = .unborn ∨ x.loop = .ended) then
      { b with returned := true }
    else b

/-- The audience has a subscription that matches the message and was registered before the
message was accepted. -/
def Due (b : Bus M) (known : Nat) (m : M) (key : Audience) : Prop :=
  ∃ s x, s < known ∧ b.subs[s]? = some x ∧ x.audience = key ∧ matchTopic x.pattern (topic m) = true

def settled (b : Bus M) (m : M) (key : Audience) : Nat :=
  b.outcomes.countP fun o => o.message = m ∧ audienceOf o.id o.group = key

/-- Once `Stop` has returned, what every accepted message is due has been brought to an end
exactly once. -/
def Delivered (b : Bus M) : Prop :=
  b.returned = true → ∀ m known key,b.call m = .accepted known → b.Due topic known m key → b.settled m key = 1

/-- No message is accepted after `Stop` has cleared the subscriptions; the queue of every
subscription `dispatch` turns to has room; the subscriptions are cleared when every message
has been dispatched and every loop has been started; a loop returns only with an empty queue
and after the clearing; and `Stop` is not called a second time before it has returned. -/
def Clean (b : Bus M) : Choice M → Prop
  | .send _ => b.cleared = false
  | .handOver _ _ => b.cleared = false
  | .offer w parked =>
    ∀ worker ∈ b.workers[w]?,match worker with
      | .delivering m (key :: _) => ∀ x ∈ b.target topic m key,
        x.ch.length < b.queueCapacity ∨ b.queueCapacity = 0 ∧ x.loop = .idle ∧ parked = true
      | _ => True
  | .clear => b.inCh = [] ∧ (∀ worker ∈ b.workers,worker.carries = false) ∧ ∀ x ∈ b.subs,x.loop ≠ .unborn
  | .exit s => ∀ x ∈ b.subs[s]?,x.ch = [] ∧ b.cleared = true
  | .stop => b.closed = true → b.returned = true
  | _ => True

end Bus

end Tempest.EventBus
