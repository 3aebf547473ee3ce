import Mathlib.Data.Fintype.Basic
import Tempest.Types

/-! The lanes of `internal/lane` and the deficit round robin scheduler over them, with the
locked sections of concurrent `Enqueue` and `ScheduleNext` calls as the steps. The payload
and the priority of a task, and the counters that only the statistics read, are left out. -/
namespace Tempest.Lanes

inductive LaneError
  | laneFull (id : String) (capacity : Int)
  | laneNotFound (id : String)
  | invalidQuantum
  | noLanes
  | duplicateLane (id : String)
  deriving DecidableEq

def LaneError.text : LaneError → String
  | .laneFull id capacity =>
    "lane: queue capacity exceeded: lane " ++ id ++ " at max capacity (" ++ toString capacity ++ ")"
  | .laneNotFound id => "lane: lane ID not recognized: " ++ id
  | .invalidQuantum => "lane: quantum must be positive"
  | .noLanes => "at least one lane required"
  | .duplicateLane id => "duplicate lane ID: " ++ id

structure Task where
  id : String
  laneID : String
  cost : Int
  enqueuedAt : Time
  ageBoosted : Bool
  deriving DecidableEq

structure LaneConfig where
  id : String
  quantum : Int
  maxCapacity : Int
  starvationThreshold : Duration
  deriving DecidableEq

structure Lane where
  cfg : LaneConfig
  tasks : List Task := []
  deficit : Int := 0

def newLane (cfg : LaneConfig) : Except LaneError Lane :=
  if cfg.quantum ≤ 0 then .error .invalidQuantum
  else
    .ok { cfg := { cfg with
      maxCapacity := if cfg.maxCapacity ≤ 0 then 10000 else cfg.maxCapacity
      starvationThreshold := if cfg.starvationThreshold ≤ 0 then 30000000000 else cfg.starvationThreshold } }

namespace Lane

def admitted (l : Lane) (task : Task) (now : Time) : Task :=
  { task with
    cost := if task.cost ≤ 0 then 1 else task.cost
    enqueuedAt := if task.enqueuedAt = 0 then now else task.enqueuedAt
    laneID := l.cfg.id }

def enqueue (l : Lane) (task : Task) (now : Time) : Except LaneError Lane :=
  if l.cfg.maxCapacity ≤ l.tasks.length then .error (.laneFull l.cfg.id l.cfg.maxCapacity)
  else .ok { l with tasks := l.tasks ++ [l.admitted task now] }

def dequeue (l : Lane) : Option (Task × Lane) :=
  match l.tasks with
  | [] => none
  | t :: rest => some (t,{ l with tasks := rest })

def isStarving (l : Lane) (now : Time) : Bool :=
  match l.tasks with
  | [] => false
  | t :: _ => l.cfg.starvationThreshold ≤ now - t.enqueuedAt

end Lane

structure DRRScheduler (n : Nat) where
  lanes : Fin n → Lane
  roundIndex : Fin n
  quantumAdded : Bool := false
  totalTasks : Int := 0

def duplicate : List String → List String → Option String
  | _,[] => none
  | seen,id :: rest => if id ∈ seen then some id else duplicate (id :: seen) rest

def newDRRScheduler (lanes : List Lane) : Except LaneError (DRRScheduler lanes.length) :=
  if some_ : 0 < lanes.length then
    match duplicate [] (lanes.map (fun l => l.cfg.id)) with
    | some id => .error (.duplicateLane id)
    | none => .ok { lanes := lanes.get,roundIndex := ⟨0,some_⟩ }
  else .error .noLanes

namespace DRRScheduler

variable {n : Nat}

def put (s : DRRScheduler n) (i : Fin n) (l : Lane) : DRRScheduler n := { s with lanes := Function.update s.lanes i l }

@[simp] lemma put_lanes (s : DRRScheduler n) (i : Fin n) (l : Lane) : (s.put i l).lanes = Function.update s.lanes i l := rfl

def lookup (s : DRRScheduler n) (id : String) : Option (Fin n) :=
  (List.finRange n).find? (fun i => (s.lanes i).cfg.id = id)

def advance (s : DRRScheduler n) : DRRScheduler n :=
  { s with roundIndex := ⟨(s.roundIndex + 1) % n,Nat.mod_lt _ (Nat.zero_lt_of_lt s.roundIndex.isLt)⟩,quantumAdded := false }

def credit (s : DRRScheduler n) : Int :=
  let lane := s.lanes s.roundIndex
  if s.quantumAdded then lane.deficit else lane.deficit + lane.cfg.quantum

/-- One attempt of the round robin. The lane is unlocked before `totalTasks` is counted
down, but `totalTasks` is only used under the lock of the scheduler, which is held. -/
def attempt (s : DRRScheduler n) : Option Task × DRRScheduler n :=
  let lane := s.lanes s.roundIndex
  match lane.tasks with
  | [] => (none,(s.put s.roundIndex { lane with deficit := 0 }).advance)
  | head :: rest =>
    let deficit := s.credit
    let s := { s with quantumAdded := true }
    if head.cost ≤ deficit then
      let s := { s with totalTasks := s.totalTasks - 1 }
      match rest with
      | [] => (some head,(s.put s.roundIndex { lane with tasks := [],deficit := 0 }).advance)
      | following :: _ =>
        let s := s.put s.roundIndex { lane with tasks := rest,deficit := deficit - head.cost }
        (some head,if deficit - head.cost < following.cost then s.advance else s)
    else (none,(s.put s.roundIndex { lane with deficit }).advance)

end DRRScheduler

/-- How far a call has come. -/
inductive Pc (n : Nat)
  -- `Enqueue`
  | lookup (task : Task)
  | insert (lane : Fin n) (task : Task)
  | count (lane : Fin n) (task : Task)
  | accepted (lane : Fin n) (task : Task)
  | refused (err : LaneError)
  -- `ScheduleNext`, first without the lock of the scheduler
  | entering
  | waiting
  -- and then with it
  | top
  | woken
  | scan (i : Nat)
  | starving (i : Fin n)
  | removing (i : Fin n)
  | attempting (k : Nat)
  | returned (lane : Fin n) (task : Task)
  | cancelled

inductive Event (n : Nat)
  | accepted (call : Nat) (lane : Fin n) (task : Task)
  | returned (call : Nat) (lane : Fin n) (task : Task) (starved : Bool)

structure System (n : Nat) where
  scheduler : DRRScheduler n
  holder : Option Nat := none
  calls : List (Pc n)
  log : List (Event n) := []

/-- Which call goes on, what the clock shows, and whether the context is done. -/
structure Choice where
  call : Nat
  now : Time
  done : Bool

namespace System

variable {n : Nat}

def goto (s : System n) (c : Nat) (pc : Pc n) : System n := { s with calls := s.calls.set c pc }

def acquire (s : System n) (c : Nat) : System n := { s with holder := some c }

def release (s : System n) : System n := { s with holder := none }

def record (s : System n) (event : Event n) : System n := { s with log := s.log ++ [event] }

def schedule (s : System n) (scheduler : DRRScheduler n) : System n := { s with scheduler }

def deliver (s : System n) (c : Nat) (lane : Fin n) (task : Task) (starved : Bool) : System n :=
  (s.release.record (.returned c lane task starved)).goto c
    (.returned lane (if starved then { task with ageBoosted := true } else task))

def step (s : System n) (choice : Choice) : System n :=
  let c := choice.call
  match s.calls[c]? with
  | none => s
  | some pc =>
    match pc with
    | .lookup task =>
      if s.holder = none then
        match s.scheduler.lookup task.laneID with
        | some lane => s.goto c (.insert lane task)
        | none => s.goto c (.refused (.laneNotFound task.laneID))
      else s
    | .insert lane task =>
      match (s.scheduler.lanes lane).enqueue task choice.now with
      | .ok l =>
        let task := (s.scheduler.lanes lane).admitted task choice.now
        ((s.schedule (s.scheduler.put lane l)).record (.accepted c lane task)).goto c (.count lane task)
      | .error err => s.goto c (.refused err)
    | .count lane task =>
      if s.holder = none then
        (s.schedule { s.scheduler with totalTasks := s.scheduler.totalTasks + 1 }).goto c (.accepted lane task)
      else s
    | .entering => if s.holder = none then (s.acquire c).goto c .top else s
    | .waiting => if s.holder = none then (s.acquire c).goto c .woken else s
    | .top =>
      if choice.done then s.release.goto c .cancelled
      else if s.scheduler.totalTasks = 0 then s.release.goto c .waiting
      else s.goto c (.scan 0)
    | .woken =>
      if choice.done then s.release.goto c .cancelled
      else if s.scheduler.totalTasks = 0 then s.goto c .top
      else s.goto c (.scan 0)
    | .scan i =>
      if inside : i < n then
        if 0 < (s.scheduler.lanes ⟨i,inside⟩).tasks.length then s.goto c (.starving ⟨i,inside⟩) else s.goto c (.scan (i + 1))
      else s.goto c (.attempting 0)
    | .starving i =>
      if (s.scheduler.lanes i).isStarving choice.now then s.goto c (.removing i) else s.goto c (.scan (i + 1))
    | .removing i =>
      match (s.scheduler.lanes i).dequeue with
      | some (task,l) =>
        (s.schedule { s.scheduler.put i l with totalTasks := s.scheduler.totalTasks - 1 }).deliver c i task true
      | none => s.goto c (.scan (i + 1))
    | .attempting k =>
      if k < 2 * n then
        match s.scheduler.attempt with
        | (some task,scheduler) => (s.schedule scheduler).deliver c s.scheduler.roundIndex task false
        | (none,scheduler) => (s.schedule scheduler).goto c (.attempting (k + 1))
      else s.goto c .top
    | .accepted _ _ | .refused _ | .returned _ _ | .cancelled => s

def run (s : System n) (choices : List Choice) : System n := choices.foldl step s

end System

end Tempest.Lanes
