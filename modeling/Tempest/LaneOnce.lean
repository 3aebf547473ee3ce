import Mathlib.Algebra.BigOperators.Fin
import Mathlib.Algebra.Order.BigOperators.Group.Finset
import Tempest.Lane
import Tempest.Lib.Interaction

/-! Deficit round robin delivers each task once. Between its removal from a lane and its
insertion every task is where its lane's log says, and `totalTasks` is behind the lanes by
the calls that have inserted their task and not counted it yet. -/
open List
namespace Tempest.Lanes
open Interaction Function

variable {n : Nat}

namespace Pc

def holds : Pc n → Bool
  | .top | .woken | .scan _ | .starving _ | .removing _ | .attempting _ => true
  | _ => false

def working : Pc n → Bool
  | .scan _ | .starving _ | .removing _ | .attempting _ => true
  | _ => false

def uncounted : Pc n → Bool
  | .count _ _ => true
  | _ => false

def Tells (c : Nat) : Pc n → List (Event n) → Prop
  | .count lane task,events | .accepted lane task,events => events = [.accepted c lane task]
  | .returned lane task,events =>
    ∃ t starved,events = [.returned c lane t starved] ∧ task = if starved then { t with ageBoosted := true } else t
  | _,events => events = []

end Pc

namespace Event

def call : Event n → Nat
  | .accepted c _ _ => c
  | .returned c _ _ _ => c

def into (lane : Fin n) : Event n → Option Task
  | .accepted _ l task => if l = lane then some task else none
  | .returned _ _ _ _ => none

def outOf (lane : Fin n) : Event n → Option Task
  | .accepted _ _ _ => none
  | .returned _ l task _ => if l = lane then some task else none

end Event

namespace System

def acceptedInto (s : System n) (lane : Fin n) : List Task := s.log.filterMap (Event.into lane)

def returnedFrom (s : System n) (lane : Fin n) : List Task := s.log.filterMap (Event.outOf lane)

def eventsOf (s : System n) (c : Nat) : List (Event n) := s.log.filter (fun event => event.call = c)

end System

def queued (lanes : Fin n → Lane) : Int := ∑ i, ((lanes i).tasks.length : Int)

/-- A call goes on without touching the lanes or the log. -/
structure Moves (s : System n) (c : Nat) (pc pc' : Pc n) (holder : Option Nat) : Prop where
  lock : (pc.holds = false ∧ pc'.holds = false ∧ holder = s.holder) ∨
    (pc.holds = false ∧ pc'.holds = true ∧ s.holder = none ∧ holder = some c) ∨
    (pc.holds = true ∧ pc'.holds = true ∧ holder = s.holder) ∨ (pc.holds = true ∧ pc'.holds = false ∧ holder = none) := by
      simp [Pc.holds]
  works : pc'.working = true → pc.working = true ∨ s.scheduler.totalTasks ≠ 0 := by simp [Pc.working]
  counted : pc.uncounted = false ∧ pc'.uncounted = false := by simp [Pc.uncounted]
  silent : ∀ events, pc.Tells c events → pc'.Tells c events := by exact fun _ => id

/-- What a step of a call can do. -/
inductive Effect (s : System n) (c : Nat) : System n → Prop
  | idle : Effect s c s
  | moved {pc pc' : Pc n} {holder : Option Nat} (here : s.calls[c]? = some pc) (moves : Moves s c pc pc' holder) :
      Effect s c { s with holder,calls := s.calls.set c pc' }
  | inserted {lane : Fin n} {task : Task} {now : Time} (here : s.calls[c]? = some (.insert lane task)) :
      Effect s c (((s.schedule (s.scheduler.put lane { s.scheduler.lanes lane with
          tasks := (s.scheduler.lanes lane).tasks ++ [(s.scheduler.lanes lane).admitted task now] })).record
        (.accepted c lane ((s.scheduler.lanes lane).admitted task now))).goto c
          (.count lane ((s.scheduler.lanes lane).admitted task now)))
  | counted {lane : Fin n} {task : Task} (here : s.calls[c]? = some (.count lane task)) (free : s.holder = none) :
      Effect s c ((s.schedule { s.scheduler with totalTasks := s.scheduler.totalTasks + 1 }).goto c (.accepted lane task))
  | starved {i : Fin n} {task : Task} {rest : List Task} (here : s.calls[c]? = some (.removing i))
      (tasks : (s.scheduler.lanes i).tasks = task :: rest) :
      Effect s c ((s.schedule { s.scheduler.put i { s.scheduler.lanes i with tasks := rest } with
        totalTasks := s.scheduler.totalTasks - 1 }).deliver c i task true)
  | passed {k : Nat} {scheduler : DRRScheduler n} (here : s.calls[c]? = some (.attempting k))
      (result : s.scheduler.attempt = (none,scheduler)) : Effect s c ((s.schedule scheduler).goto c (.attempting (k + 1)))
  | served {k : Nat} {task : Task} {scheduler : DRRScheduler n} (here : s.calls[c]? = some (.attempting k))
      (result : s.scheduler.attempt = (some task,scheduler)) :
      Effect s c ((s.schedule scheduler).deliver c s.scheduler.roundIndex task false)

lemma Effect.goto {s : System n} {c : Nat} {pc pc' : Pc n} (here : s.calls[c]? = some pc) (moves : Moves s c pc pc' s.holder) :
    Effect s c (s.goto c pc') := .moved here moves

lemma Effect.release {s : System n} {c : Nat} {pc pc' : Pc n} (here : s.calls[c]? = some pc) (moves : Moves s c pc pc' none) :
    Effect s c (s.release.goto c pc') := .moved here moves

lemma Effect.acquire {s : System n} {c : Nat} {pc pc' : Pc n} (here : s.calls[c]? = some pc)
    (moves : Moves s c pc pc' (some c)) : Effect s c ((s.acquire c).goto c pc') := .moved here moves

lemma step_effect (s : System n) (choice : Choice) : Effect s choice.call (s.step choice) := by
  unfold System.step
  dsimp only
  split
  · exact .idle
  · rename_i pc here
    cases pc with
    | lookup task =>
      dsimp only
      split_ifs with free
      · split
        all_goals exact .goto here {}
      · exact .idle
    | insert lane task =>
      dsimp only
      unfold Lane.enqueue
      split_ifs with full
      · exact .goto here {}
      · exact .inserted here
    | count lane task =>
      dsimp only
      split_ifs with free
      · exact .counted here free
      · exact .idle
    | accepted lane task | refused err => exact .idle
    | entering | waiting =>
      dsimp only
      split_ifs with free
      · exact .acquire here { lock := by simp [Pc.holds,free] }
      · exact .idle
    | top =>
      dsimp only
      split_ifs with done empty
      · exact .release here {}
      · exact .release here {}
      · exact .goto here { works := fun _ => .inr empty }
    | woken =>
      dsimp only
      split_ifs with done empty
      · exact .release here {}
      · exact .goto here {}
      · exact .goto here { works := fun _ => .inr empty }
    | scan i | starving i =>
      dsimp only
      split_ifs
      all_goals exact .goto here { works := fun _ => .inl rfl }
    | removing i =>
      dsimp only
      unfold Lane.dequeue
      cases tasks : (s.scheduler.lanes i).tasks with
      | nil => exact .goto here { works := fun _ => .inl rfl }
      | cons task rest => exact .starved here tasks
    | attempting k =>
      dsimp only
      split_ifs with more
      · split
        · exact .served here (by assumption)
        · exact .passed here (by assumption)
      · exact .goto here {}
    | returned lane task | cancelled => exact .idle

/-- What an attempt of the round robin can do. -/
inductive Attempt (s : DRRScheduler n) : Option Task → DRRScheduler n → Prop
  | empty (none_ : (s.lanes s.roundIndex).tasks = []) :
      Attempt s none (s.put s.roundIndex { s.lanes s.roundIndex with deficit := 0 }).advance
  | short {head : Task} {rest : List Task} (tasks : (s.lanes s.roundIndex).tasks = head :: rest) (low : s.credit < head.cost) :
      Attempt s none (({ s with quantumAdded := true } : DRRScheduler n).put s.roundIndex
        { s.lanes s.roundIndex with deficit := s.credit }).advance
  | last {head : Task} (tasks : (s.lanes s.roundIndex).tasks = [head]) (enough : head.cost ≤ s.credit) :
      Attempt s (some head) (({ s with quantumAdded := true,totalTasks := s.totalTasks - 1 } : DRRScheduler n).put s.roundIndex
        { s.lanes s.roundIndex with tasks := [],deficit := 0 }).advance
  | ended {head following : Task} {rest : List Task} (tasks : (s.lanes s.roundIndex).tasks = head :: following :: rest)
      (enough : head.cost ≤ s.credit) (low : s.credit - head.cost < following.cost) :
      Attempt s (some head) (({ s with quantumAdded := true,totalTasks := s.totalTasks - 1 } : DRRScheduler n).put s.roundIndex
        { s.lanes s.roundIndex with tasks := following :: rest,deficit := s.credit - head.cost }).advance
  | continued {head following : Task} {rest : List Task} (tasks : (s.lanes s.roundIndex).tasks = head :: following :: rest)
      (enough : head.cost ≤ s.credit) (more : following.cost ≤ s.credit - head.cost) :
      Attempt s (some head) (({ s with quantumAdded := true,totalTasks := s.totalTasks - 1 } : DRRScheduler n).put s.roundIndex
        { s.lanes s.roundIndex with tasks := following :: rest,deficit := s.credit - head.cost })

lemma attempt_cases (s : DRRScheduler n) : Attempt s s.attempt.1 s.attempt.2 := by
  unfold DRRScheduler.attempt
  dsimp only
  split
  · exact .empty (by assumption)
  · rename_i head rest tasks
    split_ifs with enough
    · split
      · exact .last tasks enough
      · dsimp only
        split_ifs with low
        · exact .ended tasks enough low
        · exact .continued tasks enough (not_lt.mp low)
    · exact .short tasks (not_le.mp enough)

lemma attempt_none {s s' : DRRScheduler n} (result : s.attempt = (none,s')) :
    s'.totalTasks = s.totalTasks ∧ ∀ i,(s'.lanes i).tasks = (s.lanes i).tasks := by
  have cases_ := attempt_cases s
  rw [result] at cases_
  have kept : ∀ deficit i,
      (update s.lanes s.roundIndex { s.lanes s.roundIndex with deficit } i).tasks = (s.lanes i).tasks := by
    intro deficit i
    by_cases same : i = s.roundIndex
    · rw [same,update_self]
    · rw [update_of_ne same]
  cases cases_ with
  | empty none_ => exact ⟨rfl,kept 0⟩
  | short tasks low => exact ⟨rfl,kept s.credit⟩

variable {task : Task}

lemma attempt_some {s s' : DRRScheduler n} (result : s.attempt = (some task,s')) :
    s'.totalTasks = s.totalTasks - 1 ∧ ∃ l,s'.lanes = update s.lanes s.roundIndex l ∧
      (s.lanes s.roundIndex).tasks = task :: l.tasks := by
  have cases_ := attempt_cases s
  rw [result] at cases_
  cases cases_ with
  | last tasks enough | ended tasks enough low | continued tasks enough more => exact ⟨rfl,_,rfl,tasks⟩

lemma queued_update (lanes : Fin n → Lane) (i : Fin n) (l : Lane) :
    queued (update lanes i l) = queued lanes + l.tasks.length - (lanes i).tasks.length := by
  have apart : ∀ f : Fin n → Lane,queued f = ((f i).tasks.length : Int) + ∑ j ∈ Finset.univ \ {i},((f j).tasks.length : Int) := by
    intro f
    rw [queued,← Finset.sum_sdiff (Finset.subset_univ {i}),Finset.sum_singleton]
    omega
  have others : ∑ j ∈ Finset.univ \ {i},((update lanes i l j).tasks.length : Int) =
      ∑ j ∈ Finset.univ \ {i},((lanes j).tasks.length : Int) := by
    apply Finset.sum_congr rfl
    intro j member
    rw [update_of_ne (by simpa using member)]
  rw [apart (update lanes i l),apart lanes,update_self]
  omega

structure Accounted (s : System n) : Prop where
  fifo : ∀ lane, s.returnedFrom lane ++ (s.scheduler.lanes lane).tasks = s.acceptedInto lane
  tells : ∀ (c : Nat) (pc : Pc n), s.calls[c]? = some pc → pc.Tells c (s.eventsOf c)
  total : s.scheduler.totalTasks = queued s.scheduler.lanes - s.calls.countP Pc.uncounted
  nonneg : 0 ≤ s.scheduler.totalTasks
  locked : ∀ (c : Nat) (pc : Pc n), s.calls[c]? = some pc → (pc.holds = true ↔ s.holder = some c)
  works : ∀ (c : Nat) (pc : Pc n), s.calls[c]? = some pc → pc.working = true → 0 < s.scheduler.totalTasks

section Set

variable {calls : List (Pc n)} {c : Nat} {pc pc' : Pc n}

lemma set_forall {P : Nat → Pc n → Prop} (here : P c pc') (others : ∀ d pc,d ≠ c → calls[d]? = some pc → P d pc) :
    ∀ d pc,(calls.set c pc')[d]? = some pc → P d pc := by
  intro d pc found
  by_cases same : d = c
  · subst same
    rw [getElem?_set_self'] at found
    cases old : calls[d]? with
    | none =>
      rw [old] at found
      cases found
    | some _ =>
      rw [old] at found
      cases found
      exact here
  · rw [getElem?_set_ne (Ne.symm same)] at found
    exact others d pc same found

lemma uncounted_set (here : calls[c]? = some pc) : ((calls.set c pc').countP Pc.uncounted : Int) =
      calls.countP Pc.uncounted - (if pc.uncounted then 1 else 0) + (if pc'.uncounted then 1 else 0) := by
  obtain ⟨inside,found⟩ := List.getElem?_eq_some_iff.mp here
  have positive : pc.uncounted = true → 0 < calls.countP Pc.uncounted := by
    intro yes
    rw [countP_pos_iff]
    exact ⟨pc,mem_of_getElem? here,yes⟩
  rw [countP_set inside,found]
  split_ifs with old new new
  · have := positive old
    omega
  · have := positive old
    omega
  all_goals omega

end Set

lemma eventsOf_record (s : System n) (event : Event n) (d : Nat) :
    (s.record event).eventsOf d = s.eventsOf d ++ if event.call = d then [event] else [] := by
  change (s.log ++ [event]).filter (fun event => event.call = d) = _
  rw [filter_append]
  congr 1
  by_cases mine : event.call = d <;> simp [mine]

lemma tells_record {s : System n} (tells : ∀ (d : Nat) (pc : Pc n),s.calls[d]? = some pc → pc.Tells d (s.eventsOf d))
    (event : Event n) {pc' : Pc n} (mine : pc'.Tells event.call (s.eventsOf event.call ++ [event])) :
    ∀ (d : Nat) (pc : Pc n),(s.calls.set event.call pc')[d]? = some pc → pc.Tells d ((s.record event).eventsOf d) := by
  apply set_forall
  · rwa [eventsOf_record,if_pos rfl]
  · intro d pc different there
    rw [eventsOf_record,if_neg (Ne.symm different),append_nil]
    exact tells d pc there

variable {l : Lane}

namespace Accounted

variable {s : System n} {c : Nat}

lemma alone (accounted : Accounted s) {pc : Pc n} (here : s.calls[c]? = some pc) (holding : pc.holds = true) {d : Nat}
    {other : Pc n} (there : s.calls[d]? = some other) (different : d ≠ c) : other.holds = false := by
  rw [Bool.eq_false_iff]
  intro too
  have first := (accounted.locked c pc here).mp holding
  have second := (accounted.locked d other there).mp too
  rw [first] at second
  exact different (Option.some.inj second).symm

lemma holds_of_working {pc : Pc n} (working : pc.working = true) : pc.holds = true := by
  cases pc <;> first | rfl | cases working

section
variable (accounted : Accounted s)
include accounted

lemma moved {pc pc' : Pc n} {holder : Option Nat} (here : s.calls[c]? = some pc)
    (moves : Moves s c pc pc' holder) : Accounted { s with holder,calls := s.calls.set c pc' } where
  fifo := accounted.fifo
  tells := set_forall (moves.silent _ (accounted.tells c pc here)) (fun d pc _ => accounted.tells d pc)
  total := by
    rw [uncounted_set here,moves.counted.1,moves.counted.2]
    simpa using accounted.total
  nonneg := accounted.nonneg
  locked := by
    have mine := accounted.locked c pc here
    have others := accounted.locked
    apply set_forall
    · rcases moves.lock with ⟨first,second,same⟩ | ⟨first,second,_,same⟩ | ⟨first,second,same⟩ | ⟨first,second,same⟩
      · rw [second,same,← mine,first]
      · rw [second,same]
        simp
      · rw [second,same,← mine,first]
      · rw [second,same]
        simp
    · intro d other different there
      rw [others d other there]
      rcases moves.lock with ⟨first,second,same⟩ | ⟨first,second,free,same⟩ | ⟨first,second,same⟩ | ⟨first,second,same⟩
      · rw [same]
      · rw [same,free]
        simp [Ne.symm different]
      · rw [same]
      · rw [same,mine.mp first]
        simp [Ne.symm different]
  works := by
    apply set_forall
    · intro working
      rcases moves.works working with before | some_
      · exact accounted.works c pc here before
      · have := accounted.nonneg
        dsimp only
        omega
    · intro d other _ there working
      exact accounted.works d other there working

variable {lane : Fin n}

lemma inserted (here : s.calls[c]? = some (.insert lane task)) (kept : Task) :
    Accounted (((s.schedule (s.scheduler.put lane { s.scheduler.lanes lane with
      tasks := (s.scheduler.lanes lane).tasks ++ [kept] })).record (.accepted c lane kept)).goto c (.count lane kept)) where
  fifo := by
    intro i
    have before := accounted.fifo i
    simp only [System.goto,System.record,System.schedule,DRRScheduler.put,System.returnedFrom,System.acceptedInto,
      filterMap_append,filterMap_cons,filterMap_nil,Event.into,Event.outOf,append_nil] at before ⊢
    by_cases same : i = lane
    · subst same
      rw [← before]
      simp
    · rw [update_of_ne same,before,if_neg (Ne.symm same)]
      simp
  tells := by
    have silent := accounted.tells c (.insert lane task) here
    apply tells_record accounted.tells (.accepted c lane kept)
    change s.eventsOf c ++ [.accepted c lane kept] = [.accepted c lane kept]
    rw [silent]
    rfl
  total := by
    have before := accounted.total
    change s.scheduler.totalTasks = queued (update s.scheduler.lanes lane _) -
      ((s.calls.set c (.count lane kept)).countP Pc.uncounted : Int)
    rw [uncounted_set here,queued_update]
    simp only [length_append,length_singleton,Pc.uncounted,if_true,Bool.false_eq_true,if_false]
    omega
  nonneg := accounted.nonneg
  locked := by
    have mine := accounted.locked c _ here
    exact set_forall mine (fun d pc _ there => accounted.locked d pc there)
  works := set_forall (fun working => absurd working Bool.false_ne_true) (fun d pc _ there => accounted.works d pc there)

lemma counted (here : s.calls[c]? = some (.count lane task)) :
    Accounted ((s.schedule { s.scheduler with totalTasks := s.scheduler.totalTasks + 1 }).goto c (.accepted lane task)) where
  fifo := accounted.fifo
  tells := set_forall (accounted.tells c (.count lane task) here) (fun d pc _ there => accounted.tells d pc there)
  total := by
    have before := accounted.total
    change s.scheduler.totalTasks + 1 = queued s.scheduler.lanes -
      ((s.calls.set c (.accepted lane task)).countP Pc.uncounted : Int)
    rw [uncounted_set here]
    simp only [Pc.uncounted,if_true,Bool.false_eq_true,if_false]
    omega
  nonneg := by
    have before := accounted.nonneg
    change 0 ≤ s.scheduler.totalTasks + 1
    omega
  locked := set_forall (accounted.locked c (.count lane task) here) (fun d pc _ there => accounted.locked d pc there)
  works := by
    refine set_forall (fun working => absurd working Bool.false_ne_true) (fun d pc _ there working => ?_)
    have before := accounted.works d pc there working
    change 0 < s.scheduler.totalTasks + 1
    omega

lemma delivered {pc : Pc n} (here : s.calls[c]? = some pc) (working : pc.working = true)
    {scheduler : DRRScheduler n} {i : Fin n} (starved : Bool)
    (lanes : scheduler.lanes = update s.scheduler.lanes i l) (tasks : (s.scheduler.lanes i).tasks = task :: l.tasks)
    (total : scheduler.totalTasks = s.scheduler.totalTasks - 1) :
    Accounted ((s.schedule scheduler).deliver c i task starved) where
  fifo := by
    intro j
    have before := accounted.fifo j
    simp only [System.deliver,System.goto,System.record,System.release,System.schedule,System.returnedFrom,
      System.acceptedInto,filterMap_append,filterMap_cons,filterMap_nil,Event.into,Event.outOf,
      append_nil] at before ⊢
    rw [lanes]
    by_cases same : j = i
    · subst same
      rw [← before,tasks]
      simp
    · rw [update_of_ne same,← before,if_neg (Ne.symm same)]
      simp
  tells := by
    have silent : s.eventsOf c = [] := by
      have tells := accounted.tells c pc here
      cases pc <;> first | exact tells | cases working
    apply tells_record accounted.tells (.returned c i task starved)
    refine ⟨task,starved,?_,rfl⟩
    change s.eventsOf c ++ [.returned c i task starved] = [.returned c i task starved]
    rw [silent]
    rfl
  total := by
    have before := accounted.total
    have certain : pc.uncounted = false := by cases pc <;> first | rfl | cases working
    change scheduler.totalTasks = queued scheduler.lanes - ((s.calls.set c (.returned i _)).countP Pc.uncounted : Int)
    rw [uncounted_set here,lanes,queued_update,tasks,certain]
    simp only [length_cons,Pc.uncounted,Bool.false_eq_true,if_false]
    omega
  nonneg := by
    have before := accounted.works c pc here working
    change 0 ≤ scheduler.totalTasks
    omega
  locked := by
    apply set_forall
    · change false = true ↔ none = some c
      simp
    · intro d other different there
      have apart := accounted.alone here (holds_of_working working) there different
      change other.holds = true ↔ none = some d
      rw [apart]
      simp
  works := by
    refine set_forall (fun impossible => absurd impossible Bool.false_ne_true) (fun d other different there too => ?_)
    have apart := accounted.alone here (holds_of_working working) there different
    rw [holds_of_working too] at apart
    cases apart

lemma passed {k : Nat} (here : s.calls[c]? = some (.attempting k)) {scheduler : DRRScheduler n}
    (total : scheduler.totalTasks = s.scheduler.totalTasks)
    (tasks : ∀ i,(scheduler.lanes i).tasks = (s.scheduler.lanes i).tasks) :
    Accounted ((s.schedule scheduler).goto c (.attempting (k + 1))) where
  fifo := by
    intro i
    change s.returnedFrom i ++ (scheduler.lanes i).tasks = s.acceptedInto i
    rw [tasks i]
    exact accounted.fifo i
  tells := set_forall (accounted.tells c (.attempting k) here) (fun d pc _ there => accounted.tells d pc there)
  total := by
    have before := accounted.total
    have same : queued scheduler.lanes = queued s.scheduler.lanes := by
      rw [queued,queued]
      simp only [tasks]
    change scheduler.totalTasks = queued scheduler.lanes - ((s.calls.set c (.attempting (k + 1))).countP Pc.uncounted : Int)
    rw [uncounted_set here,same]
    simp only [Pc.uncounted,Bool.false_eq_true,if_false]
    omega
  nonneg := by
    change 0 ≤ scheduler.totalTasks
    rw [total]
    exact accounted.nonneg
  locked := set_forall (accounted.locked c (.attempting k) here) (fun d pc _ there => accounted.locked d pc there)
  works := by
    have before := accounted.works
    rw [← total] at before
    exact set_forall (before c (.attempting k) here) (fun d pc _ there => before d pc there)

lemma effect {s' : System n} (effect : Effect s c s') : Accounted s' := by
  cases effect with
  | idle => exact accounted
  | moved here moves => exact accounted.moved here moves
  | inserted here => exact accounted.inserted here _
  | counted here free => exact accounted.counted here
  | starved here tasks => exact accounted.delivered here rfl true rfl tasks rfl
  | passed here result =>
    obtain ⟨total,tasks⟩ := attempt_none result
    exact accounted.passed here total tasks
  | served here result =>
    obtain ⟨total,l,lanes,tasks⟩ := attempt_some result
    exact accounted.delivered here rfl false lanes tasks total

lemma step (choice : Choice) : Accounted (s.step choice) := accounted.effect (step_effect s choice)

lemma run (choices : List Choice) : Accounted (s.run choices) := by
  induction choices generalizing s with
  | nil => exact accounted
  | cons choice rest later => exact later (accounted.step choice)

end

end Accounted

inductive Request
  | enqueue (task : Task)
  | scheduleNext

def Request.start : Request → Pc n
  | .enqueue task => .lookup task
  | .scheduleNext => .entering

def System.start (scheduler : DRRScheduler n) (requests : List Request) : System n :=
  { scheduler,calls := requests.map Request.start }

lemma newLane_fresh {cfg : LaneConfig} (made : newLane cfg = .ok l) :
    l.tasks = [] ∧ l.deficit = 0 ∧ 0 < l.cfg.quantum := by
  unfold newLane at made
  split at made
  · cases made
  · rename_i positive
    cases made
    exact ⟨rfl,rfl,not_le.mp positive⟩

lemma newDRRScheduler_fresh {lanes : List Lane} {scheduler : DRRScheduler lanes.length}
    (made : newDRRScheduler lanes = .ok scheduler) :
    scheduler.lanes = lanes.get ∧ scheduler.totalTasks = 0 ∧ scheduler.quantumAdded = false := by
  unfold newDRRScheduler at made
  split_ifs at made
  split at made
  · cases made
  · cases made
    exact ⟨rfl,rfl,rfl⟩

lemma Request.start_quiet {pc : Pc n} {requests : List Request} {c : Nat}
    (there : (requests.map Request.start)[c]? = some pc) :
    pc.holds = false ∧ pc.working = false ∧ pc.uncounted = false ∧ pc.Tells c [] := by
  rw [getElem?_map] at there
  obtain ⟨request,_,rfl⟩ := Option.map_eq_some_iff.mp there
  cases request <;> exact ⟨rfl,rfl,rfl,rfl⟩

section Start

variable {lanes : List Lane} (fresh : ∀ l ∈ lanes, ∃ cfg, newLane cfg = .ok l) {scheduler : DRRScheduler lanes.length}
  (made : newDRRScheduler lanes = .ok scheduler) (requests : List Request)

include fresh made

lemma start_fresh (i : Fin lanes.length) :
    (scheduler.lanes i).tasks = [] ∧ (scheduler.lanes i).deficit = 0 ∧ 0 < (scheduler.lanes i).cfg.quantum := by
  obtain ⟨same,_,_⟩ := newDRRScheduler_fresh made
  obtain ⟨cfg,built⟩ := fresh (lanes.get i) (get_mem lanes i)
  rw [same]
  exact newLane_fresh built

lemma accounted_start : Accounted (System.start scheduler requests) := by
  have empty := fun i => (start_fresh fresh made i).1
  obtain ⟨_,zero,_⟩ := newDRRScheduler_fresh made
  have none_ : (System.start scheduler requests).calls.countP Pc.uncounted = 0 := by
    rw [countP_eq_zero]
    intro pc member
    obtain ⟨c,there⟩ := mem_iff_getElem?.mp member
    rw [(Request.start_quiet there).2.2.1]
    exact Bool.false_ne_true
  constructor
  · intro lane
    exact empty lane
  · intro c pc there
    exact (Request.start_quiet there).2.2.2
  · rw [none_]
    change scheduler.totalTasks = queued scheduler.lanes - 0
    rw [zero,queued]
    simp [empty]
  · exact zero.symm.le
  · intro c pc there
    rw [(Request.start_quiet there).1]
    change false = true ↔ none = some c
    simp
  · intro c pc there working
    rw [(Request.start_quiet there).2.1] at working
    cases working

/-- However the calls interleave, what was accepted into a lane is what was returned from
it and then what it still holds, each call has its own result in the log, and `totalTasks`
is short of the tasks in the lanes by those that are not counted yet. -/
theorem delivered_once (choices : List Choice) :
    (∀ lane, ((System.start scheduler requests).run choices).returnedFrom lane ++
        (((System.start scheduler requests).run choices).scheduler.lanes lane).tasks =
      ((System.start scheduler requests).run choices).acceptedInto lane) ∧
    (∀ (c : Nat) (pc : Pc lanes.length), ((System.start scheduler requests).run choices).calls[c]? = some pc →
      pc.Tells c (((System.start scheduler requests).run choices).eventsOf c)) ∧
    ((System.start scheduler requests).run choices).scheduler.totalTasks =
      queued ((System.start scheduler requests).run choices).scheduler.lanes -
        ((System.start scheduler requests).run choices).calls.countP Pc.uncounted ∧
    0 ≤ ((System.start scheduler requests).run choices).scheduler.totalTasks := by
  have accounted := (accounted_start fresh made requests).run choices
  exact ⟨accounted.fifo,accounted.tells,accounted.total,accounted.nonneg⟩

end Start

def twoLanes : List Lane := [⟨⟨"a",2,10,1000⟩,[],0⟩,⟨⟨"b",1,10,1000⟩,[],0⟩]

lemma twoLanes_fresh : ∀ l ∈ twoLanes,∃ cfg,newLane cfg = .ok l := by
  intro l member
  rcases mem_cons.mp member with rfl | other
  · exact ⟨⟨"a",2,10,1000⟩,rfl⟩
  · rw [mem_singleton.mp other]
    exact ⟨⟨"b",1,10,1000⟩,rfl⟩

def twoScheduler : DRRScheduler twoLanes.length := { lanes := twoLanes.get,roundIndex := ⟨0,by decide⟩ }

lemma twoLanes_made : newDRRScheduler twoLanes = .ok twoScheduler := rfl

def fourCalls : List Request :=
  [.enqueue ⟨"x","a",1,1,false⟩,.enqueue ⟨"y","a",1,1,false⟩,.enqueue ⟨"z","b",1,1,false⟩,.scheduleNext]

def turns (steps : List (Nat × Nat)) : List Choice := steps.flatMap (fun (call,count) => List.replicate count ⟨call,1,false⟩)

theorem one_delivered :
    ((System.start twoScheduler fourCalls).run (turns [(0,3),(1,3),(2,3),(3,8)])).returnedFrom ⟨0,by decide⟩ ++
        (((System.start twoScheduler fourCalls).run (turns [(0,3),(1,3),(2,3),(3,8)])).scheduler.lanes ⟨0,by decide⟩).tasks =
      ((System.start twoScheduler fourCalls).run (turns [(0,3),(1,3),(2,3),(3,8)])).acceptedInto ⟨0,by decide⟩ ∧
    ((System.start twoScheduler fourCalls).run (turns [(0,3),(1,3),(2,3),(3,8)])).returnedFrom ⟨0,by decide⟩ =
      [⟨"x","a",1,1,false⟩] :=
  ⟨(delivered_once twoLanes_fresh twoLanes_made fourCalls (turns [(0,3),(1,3),(2,3),(3,8)])).1 ⟨0,by decide⟩,by decide +kernel⟩

end Tempest.Lanes
