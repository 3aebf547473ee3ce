import Tempest.Lib.Interaction
import Tempest.Lib.Condvar

/-! The bounded buffer. Producers and consumers wait on one condition variable, and each
operation wakes one of them, whatever it waits for. A section under the lock is one step,
from the call or the return of `Wait` to the next `Wait` or the end. -/
open List
namespace Tempest.Stream
open Interaction Condvar

inductive Call (T : Type) where
  | push (item : T)
  | pop
  deriving DecidableEq

def Call.isPush {T : Type} : Call T → Bool
  | .push _ => true
  | .pop => false

def Call.isPop {T : Type} : Call T → Bool
  | .push _ => false
  | .pop => true

structure Buffer (T : Type) where
  items : List T
  capacity : Nat
  closed : Bool
  cond : Cond (Call T)
  deriving DecidableEq

namespace Buffer

variable {T : Type}

def new (capacity : Nat) : Buffer T := ⟨[],capacity,false,.new⟩

/-- The section of a push, from its call and from the return of `Wait` alike. No result
means that the caller waits. -/
def push (b : Buffer T) (item : T) : Option (Except String Unit) × Buffer T :=
  if b.closed then (some (.error "buffer closed"),b)
  else if b.capacity ≤ b.items.length then (none,{ b with cond := b.cond.wait (.push item) })
  else (some (.ok ()),{ b with items := b.items ++ [item], cond := b.cond.signal })

def pop (b : Buffer T) : Option (Except String T) × Buffer T :=
  match b.items with
  | [] => if b.closed then (some (.error "buffer closed"),b) else (none,{ b with cond := b.cond.wait .pop })
  | item :: rest => (some (.ok item),{ b with items := rest, cond := b.cond.signal })

def close (b : Buffer T) : Buffer T := { b with closed := true, cond := b.cond.broadcast }

end Buffer

/-- The buffer with the items pushed and popped so far. -/
structure State (T : Type) where
  buffer : Buffer T
  pushed : List T
  popped : List T
  deriving DecidableEq

inductive Choice (T : Type) where
  | call (call : Call T)
  | resume (i : Nat)
  | close
  deriving DecidableEq

variable {T : Type}

def State.new (capacity : Nat) : State T := ⟨.new capacity,[],[]⟩

def perform (s : State T) : Call T → State T
  | .push item =>
    match s.buffer.push item with
    | (some (.ok ()),b) => { s with buffer := b, pushed := s.pushed ++ [item] }
    | (_,b) => { s with buffer := b }
  | .pop =>
    match s.buffer.pop with
    | (some (.ok item),b) => { s with buffer := b, popped := s.popped ++ [item] }
    | (_,b) => { s with buffer := b }

def step (s : State T) : Choice T → State T
  | .call call => perform s call
  | .resume i =>
    match s.buffer.cond.resume i with
    | none => s
    | some (call,cond) => perform { s with buffer := { s.buffer with cond } } call
  | .close => { s with buffer := s.buffer.close }

/-- If nobody is about to come back from `Wait`, no pop waits for items that are there and no
push for room that is there. The items come out in the order in which they went in, each
once. -/
structure Sound (s : State T) : Prop where
  pops : s.buffer.cond.woken = [] → s.buffer.items ≠ [] → ∀ call ∈ s.buffer.cond.waiting, call.isPop = false
  pushes : s.buffer.cond.woken = [] → s.buffer.items.length < s.buffer.capacity →
    ∀ call ∈ s.buffer.cond.waiting, call.isPush = false
  order : s.pushed = s.popped ++ s.buffer.items

def Reaches (b : Buffer T) : Call T → Prop
  | .push _ =>
    b.closed = false → b.items.length < b.capacity → b.cond.waits Call.isPop ≠ 0 → b.cond.waiting.head?.any Call.isPop = true
  | .pop => b.items ≠ [] → b.cond.waits Call.isPush ≠ 0 → b.cond.waiting.head?.any Call.isPush = true

def Clean (s : State T) : Choice T → Prop
  | .call call => Reaches s.buffer call
  | .resume i => ∀ call ∈ s.buffer.cond.woken[i]?, Reaches s.buffer call
  | .close => True

instance (b : Buffer T) (call : Call T) : Decidable (Reaches b call) := by
  cases call <;> (unfold Reaches; infer_instance)

instance (s : State T) (choice : Choice T) : Decidable (Clean s choice) := by
  cases choice <;> (unfold Clean; infer_instance)

def count (hand : Option (Call T)) (kind : Call T → Bool) : Nat := if hand.any kind then 1 else 0

/-- While pops wait, there are woken pops for all items, and while pushes wait, there are
woken pushes for all free places. The caller at hand, in its section now, counts as woken. -/
structure Served (s : State T) (hand : Option (Call T)) : Prop where
  pops : s.buffer.cond.waits Call.isPop = 0 ∨
    s.buffer.items.length ≤ s.buffer.cond.wakes Call.isPop + count hand Call.isPop
  pushes : s.buffer.cond.waits Call.isPush = 0 ∨
    s.buffer.capacity ≤ s.buffer.items.length + s.buffer.cond.wakes Call.isPush + count hand Call.isPush
  shut : s.buffer.closed = true → s.buffer.cond.waiting = []
  order : s.pushed = s.popped ++ s.buffer.items

section served

variable {s : State T}

lemma push_closed (closed : s.buffer.closed = true) (item : T) : perform s (.push item) = s := by
  simp [perform,Buffer.push,closed]

lemma push_full (running : s.buffer.closed = false) (full : s.buffer.capacity ≤ s.buffer.items.length) (item : T) :
    perform s (.push item) = { s with buffer := { s.buffer with cond := s.buffer.cond.wait (.push item) } } := by
  simp [perform,Buffer.push,running,full]

lemma push_room (running : s.buffer.closed = false) (room : s.buffer.items.length < s.buffer.capacity) (item : T) :
    perform s (.push item) =
      { s with buffer := { s.buffer with items := s.buffer.items ++ [item],cond := s.buffer.cond.signal }
               pushed := s.pushed ++ [item] } := by
  simp [perform,Buffer.push,running,Nat.not_le.mpr room]

lemma pop_closed (closed : s.buffer.closed = true) (empty : s.buffer.items = []) : perform s .pop = s := by
  simp [perform,Buffer.pop,closed,empty]

lemma pop_empty (running : s.buffer.closed = false) (empty : s.buffer.items = []) :
    perform s .pop = { s with buffer := { s.buffer with cond := s.buffer.cond.wait .pop } } := by
  simp [perform,Buffer.pop,running,empty]

lemma pop_item {item : T} {rest : List T} (held : s.buffer.items = item :: rest) : perform s .pop =
      { s with buffer := { s.buffer with items := rest,cond := s.buffer.cond.signal },popped := s.popped ++ [item] } := by
  simp [perform,Buffer.pop,held]

lemma waits_of_waiting_nil {cond : Cond (Call T)} (none : cond.waiting = []) (kind : Call T → Bool) : cond.waits kind = 0 := by
  simp [Cond.waits,none]

lemma Served.push {item : T} (served : Served s (some (.push item))) (reaches : Reaches s.buffer (.push item)) :
    Served (perform s (.push item)) none := by
  have hand : count (some (Call.push item)) Call.isPop = 0 ∧ count (some (Call.push item)) Call.isPush = 1 := ⟨rfl,rfl⟩
  obtain ⟨pops,pushes,shut,order⟩ := served
  cases running : s.buffer.closed with
  | true =>
    -- nobody waits at a closed buffer
    have none := waits_of_waiting_nil (shut running)
    rw [push_closed running]
    exact ⟨.inl (none _),.inl (none _),shut,order⟩
  | false =>
    rcases Nat.lt_or_ge s.buffer.items.length s.buffer.capacity with room | full
    · rw [push_room running room]
      have moved := s.buffer.cond.signal_moves Call.isPop
      have moved' := s.buffer.cond.signal_moves Call.isPush
      refine ⟨?_,?_,fun closed => s.buffer.cond.signal_waiting_nil (shut closed),?_⟩
      · by_cases waiting : s.buffer.cond.waits Call.isPop = 0
        · left
          dsimp only
          omega
        · have first := s.buffer.cond.signal_first Call.isPop (reaches running room waiting)
          right
          simp only [length_append,length_singleton]
          omega
      · simp only [length_append,length_singleton]
        omega
      · simp only [order,append_assoc]
    · rw [push_full running full]
      refine ⟨?_,.inr ?_,fun closed => absurd (running.symm.trans closed) (by decide),order⟩
      · simpa [Call.isPop,count] using pops
      · dsimp only
        omega

lemma Served.pop (served : Served s (some .pop)) (reaches : Reaches s.buffer .pop) :
    Served (perform s .pop) none := by
  have hand : count (some (Call.pop : Call T)) Call.isPop = 1 ∧ count (some (Call.pop : Call T)) Call.isPush = 0 := ⟨rfl,rfl⟩
  obtain ⟨pops,pushes,shut,order⟩ := served
  cases held : s.buffer.items with
  | nil =>
    cases running : s.buffer.closed with
    | true =>
      have none := waits_of_waiting_nil (shut running)
      rw [pop_closed running held]
      exact ⟨.inl (none _),.inl (none _),shut,order⟩
    | false =>
      rw [pop_empty running held]
      refine ⟨.inr (by simp [held]),?_,fun closed => absurd (running.symm.trans closed) (by decide),order⟩
      simpa [Call.isPush,count] using pushes
  | cons item rest =>
    have moved := s.buffer.cond.signal_moves Call.isPop
    have moved' := s.buffer.cond.signal_moves Call.isPush
    rw [held,length_cons] at pops pushes
    rw [pop_item held]
    refine ⟨?_,?_,fun closed => s.buffer.cond.signal_waiting_nil (shut closed),?_⟩
    · dsimp only
      omega
    · by_cases waiting : s.buffer.cond.waits Call.isPush = 0
      · left
        dsimp only
        omega
      · have first := s.buffer.cond.signal_first Call.isPush (reaches (by simp [held]) waiting)
        right
        dsimp only
        omega
    · simp only [order,held,append_assoc,singleton_append]

lemma Served.perform {call : Call T} (served : Served s (some call)) (reaches : Reaches s.buffer call) :
    Served (perform s call) none := by
  cases call with
  | push item => exact served.push reaches
  | pop => exact served.pop reaches

lemma Served.enter (served : Served s none) (call : Call T) : Served s (some call) := by
  obtain ⟨pops,pushes,shut,order⟩ := served
  have hand : ∀ kind,count (none : Option (Call T)) kind = 0 := fun kind => rfl
  rw [hand] at pops pushes
  exact ⟨by omega,by omega,shut,order⟩

lemma Served.step (choice : Choice T) (served : Served s none) (clean : Clean s choice) :
    Served (step s choice) none := by
  cases choice with
  | call call => exact (served.enter call).perform clean
  | close => exact ⟨.inl rfl,.inl rfl,fun _ => rfl,served.order⟩
  | resume i =>
    simp only [Stream.step]
    cases resumed : s.buffer.cond.resume i with
    | none => exact served
    | some back =>
      obtain ⟨call,cond⟩ := back
      obtain ⟨line,pops⟩ := Cond.resume_wakes Call.isPop resumed
      obtain ⟨-,pushes⟩ := Cond.resume_wakes Call.isPush resumed
      have waits : ∀ kind,cond.waits kind = s.buffer.cond.waits kind := fun kind => congrArg (List.countP kind) line
      have back : Served { s with buffer := { s.buffer with cond } } (some call) := by
        refine ⟨?_,?_,fun closed => line.trans (served.shut closed),served.order⟩
        · have before := served.pops
          simp only [waits,count,Option.any_some,Option.any_none] at before ⊢
          simp only [Bool.false_eq_true,if_false] at before
          omega
        · have before := served.pushes
          simp only [waits,count,Option.any_some,Option.any_none] at before ⊢
          simp only [Bool.false_eq_true,if_false] at before
          omega
      apply back.perform
      have reaches := clean call (Cond.resume_cases resumed).1
      cases call with
      | push item | pop => simpa only [Reaches,waits,line] using reaches

lemma Served.sound (served : Served s none) : Sound s := by
  obtain ⟨pops,pushes,-,order⟩ := served
  refine ⟨?_,?_,order⟩
  · intro none items
    have positive := length_pos_iff.mpr items
    have sleeping : s.buffer.cond.wakes Call.isPop = 0 := by simp [Cond.wakes,none]
    apply Cond.waits_eq_zero
    have zero : count (Option.none : Option (Call T)) Call.isPop = 0 := rfl
    omega
  · intro none room
    have sleeping : s.buffer.cond.wakes Call.isPush = 0 := by simp [Cond.wakes,none]
    apply Cond.waits_eq_zero
    have zero : count (Option.none : Option (Call T)) Call.isPush = 0 := rfl
    omega

end served

/-- If every signal reaches a caller of the other kind, no wake-up is lost in any state of
any run, and the items come out in order. -/
theorem wakes_of_clean (capacity : Nat) (choices : List (Choice T)) (clean : Along step Clean (State.new capacity) choices) :
    Throughout step Sound (State.new capacity) choices := by
  have start : Served (State.new capacity : State T) none := ⟨.inl rfl,.inl rfl,fun _ => rfl,rfl⟩
  have kept : Throughout step (fun s => Served s none) (State.new capacity) choices :=
    Along.throughout (fun _ choice served clean => served.step choice clean) start clean
  exact kept.mono (fun _ served => served.sound)

/-- Two producers and a consumer at a buffer with one place. -/
theorem wakes_in_turn :
    Throughout step Sound (State.new 1 : State Nat)
      [.call (.push 1),.call (.push 2),.call .pop,.resume 0,.call .pop,.call .pop,.close,.resume 0] :=
  wakes_of_clean 1 _ (by decide)

/-- The signal of a pop wakes another pop, which finds nothing and waits again. The push that
waits for the free place is never woken. -/
theorem push_left_waiting :
    ¬Throughout step Sound (State.new 1 : State Nat)
      [.call .pop,.call .pop,.call (.push 1),.call (.push 2),.resume 0,.resume 0] := by
  intro throughout
  have pushes := (throughout _ prefix_rfl).pushes
  revert pushes
  decide

/-- What no schedule breaks, whomever the signals wake: nothing is lost or out of order, there is
never too much, and nobody waits at a closed buffer. -/
structure Kept (s : State T) : Prop where
  order : s.pushed = s.popped ++ s.buffer.items
  room : s.buffer.items.length ≤ s.buffer.capacity
  shut : s.buffer.closed = true → s.buffer.cond.waiting = []

lemma Kept.perform {s : State T} (kept : Kept s) (call : Call T) : Kept (perform s call) := by
  obtain ⟨order,room,shut⟩ := kept
  have signalled := fun closed => s.buffer.cond.signal_waiting_nil (shut closed)
  cases call with
  | push item =>
    rw [Stream.perform,Buffer.push]
    split_ifs with closed full
    · exact ⟨order,room,shut⟩
    · exact ⟨order,room,fun shut => absurd shut closed⟩
    · exact ⟨by simp [order],by simpa [Nat.succ_le_iff] using full,signalled⟩
  | pop =>
    rw [Stream.perform,Buffer.pop]
    cases held : s.buffer.items with
    | nil =>
      rw [held] at order
      dsimp only
      split_ifs with closed
      · exact ⟨held.symm ▸ order,room,shut⟩
      · exact ⟨order,Nat.zero_le _,fun shut => absurd shut closed⟩
    | cons item rest =>
      rw [held] at order room
      exact ⟨by simp [order],Nat.le_of_succ_le room,signalled⟩

theorem buffer_kept (capacity : Nat) (choices : List (Choice T)) : Kept (choices.foldl step (.new capacity)) := by
  refine foldlRecOn choices step ⟨rfl,Nat.zero_le _,nofun⟩ fun s kept choice _ => ?_
  cases choice with
  | call call => exact kept.perform call
  | close => exact ⟨kept.order,kept.room,fun _ => rfl⟩
  | resume i =>
    rw [step]
    split
    · exact kept
    next call cond resumed =>
      have line := (Cond.resume_wakes Call.isPop resumed).1
      apply Kept.perform
      exact ⟨kept.order,kept.room,fun closed => line.trans (kept.shut closed)⟩

end Tempest.Stream
