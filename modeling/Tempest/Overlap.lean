import Tempest.Lib.Interaction

/-! The executions of one schedule of `internal/cronengine`. `dispatch` decides by the overlap
policy whether an execution starts and what becomes of the one that is recorded as running; the
last locked section of an execution clears the record, whichever execution it is of. -/
open List
namespace Tempest.Cron.Overlap
open Interaction

inductive OverlapPolicy
  | allow
  | forbid
  | replace
  deriving DecidableEq

structure Execution where
  cancelled : Bool
  finished : Bool
  deriving DecidableEq

/-- The executions so far have their places in the list as names; `cancelFunc` names the one
whose context it cancels. -/
structure Schedule where
  isPaused : Bool
  overlapPolicy : OverlapPolicy
  running : Bool
  cancelFunc : Option Nat
  executions : List Execution
  deriving DecidableEq

inductive Choice
  | dispatch
  | finish (k : Nat)
  | pause
  | resume
  | remove
  deriving DecidableEq

namespace Schedule

def new (policy : OverlapPolicy) : Schedule := ⟨false,policy,false,none,[]⟩

def cancel (s : Schedule) : Schedule :=
  match s.cancelFunc with
  | none => s
  | some k => { s with executions := s.executions.modify k (fun e => { e with cancelled := true }) }

def start (s : Schedule) : Schedule :=
  { s with
    running := true
    cancelFunc := some s.executions.length
    executions := s.executions ++ [⟨false,false⟩] }

def dispatch (s : Schedule) : Schedule :=
  if s.isPaused then s
  else if s.running then
    match s.overlapPolicy with
    | .forbid => s
    | .replace => s.cancel.start
    | .allow => s.start
  else s.start

def finish (s : Schedule) (k : Nat) : Schedule :=
  match s.executions[k]? with
  | some ⟨cancelled,false⟩ =>
    { s with running := false,cancelFunc := none,executions := s.executions.set k ⟨cancelled,true⟩ }
  | _ => s

def step (s : Schedule) : Choice → Schedule
  | .dispatch => s.dispatch
  | .finish k => s.finish k
  | .pause => { s with isPaused := true }
  | .resume => { s with isPaused := false }
  | .remove => s.cancel

def Running (s : Schedule) (k : Nat) : Prop := ∃ cancelled,s.executions[k]? = some ⟨cancelled,false⟩

def Live (s : Schedule) (k : Nat) : Prop := s.executions[k]? = some ⟨false,false⟩

def Enforced (s : Schedule) : Prop :=
  (s.overlapPolicy = .forbid → ∀ i j,s.Running i → s.Running j → i = j) ∧
    (s.overlapPolicy = .replace → ∀ i j,s.Live i → s.Live j → i = j)

def Clean (s : Schedule) : Choice → Prop
  | .finish k => s.overlapPolicy = .replace → s.Running k → ∀ i < s.executions.length,s.Live i → i = k
  | _ => True

/-- Under `OverlapForbid` a running execution is the only one, and the flag is set; under
`OverlapReplace` one that is not cancelled is the recorded one. -/
structure Inv (s : Schedule) : Prop where
  forbid : s.overlapPolicy = .forbid → ∀ i,s.Running i → s.running = true ∧ ∀ j,s.Running j → i = j
  replace : s.overlapPolicy = .replace → ∀ i,s.Live i → s.running = true ∧ s.cancelFunc = some i

variable {s : Schedule} {i k : Nat}

lemma Inv.enforced (inv : Inv s) : Enforced s := by
  refine ⟨fun policy i j first second => (inv.forbid policy i first).2 j second,fun policy i j first second => ?_⟩
  have left := (inv.replace policy i first).2
  have right := (inv.replace policy j second).2
  exact Option.some_inj.mp (left.symm.trans right)

lemma running_of_live (live : s.Live i) : s.Running i := ⟨false,live⟩

lemma start_running : s.start.Running i ↔ s.Running i ∨ i = s.executions.length := by
  rw [Running,Running,start]
  by_cases before : i < s.executions.length
  · rw [getElem?_append_left before]
    exact ⟨.inl,fun either => either.resolve_right (Nat.ne_of_lt before)⟩
  · have none_ := getElem?_eq_none (Nat.not_lt.mp before)
    rw [none_]
    by_cases here : i = s.executions.length
    · rw [here]
      simp
    · have outside : (s.executions ++ [(⟨false,false⟩)])[i]? = none := by
        apply getElem?_eq_none
        rw [length_append,length_singleton]
        omega
      rw [outside]
      simp [here]

lemma start_live (live : s.start.Live i) : s.Live i ∨ i = s.executions.length := by
  obtain before | here := start_running.mp (running_of_live live)
  · obtain ⟨cancelled,found⟩ := before
    have inside := (List.getElem?_eq_some_iff.mp found).1
    rw [Live,start] at live
    rw [getElem?_append_left inside] at live
    exact .inl live
  · exact .inr here

lemma cancel_live (live : s.cancel.Live i) : s.Live i ∧ s.cancelFunc ≠ some i := by
  rw [cancel] at live
  split at live
  next none_ => exact ⟨live,by rw [none_]; nofun⟩
  next k record =>
    rw [Live] at live
    rw [getElem?_modify] at live
    by_cases here : k = i
    · subst here
      obtain ⟨e,-,changed⟩ := Option.map_eq_some_iff.mp live
      rw [if_pos rfl] at changed
      cases changed
    · simp only [if_neg here,id_map'] at live
      refine ⟨live,?_⟩
      rw [record]
      intro same
      exact here (Option.some_inj.mp same)

lemma cancel_running : s.cancel.Running i ↔ s.Running i := by
  rw [cancel]
  split
  · rfl
  next k record =>
    rw [Running,Running]
    rw [getElem?_modify]
    cases s.executions[i]? with
    | none => simp
    | some e =>
      by_cases here : k = i
      · obtain ⟨cancelled,finished⟩ := e
        cases cancelled <;> simp [here]
      · simp [here]

lemma finish_running (here : s.Running k) : (s.finish k).Running i ↔ s.Running i ∧ i ≠ k := by
  obtain ⟨cancelled,found⟩ := here
  have inside := (List.getElem?_eq_some_iff.mp found).1
  rw [finish,found,Running]
  by_cases same : k = i
  · subst same
    rw [getElem?_set_self inside]
    simp
  · rw [getElem?_set_ne same]
    exact ⟨fun runs => ⟨runs,Ne.symm same⟩,And.left⟩

lemma finish_live (here : s.Running k) (live : (s.finish k).Live i) : s.Live i ∧ i ≠ k := by
  have other := ((finish_running here).mp (running_of_live live)).2
  obtain ⟨cancelled,found⟩ := here
  rw [finish,found,Live] at live
  rw [getElem?_set_ne (Ne.symm other)] at live
  exact ⟨live,other⟩

lemma finish_idle (idle : ¬s.Running k) : s.finish k = s := by
  rw [finish]
  split
  next cancelled found => exact absurd ⟨cancelled,found⟩ idle
  next => rfl

lemma cancel_policy (s : Schedule) : s.cancel.overlapPolicy = s.overlapPolicy := by
  rw [cancel]
  split <;> rfl

lemma cancel_record (s : Schedule) : s.cancel.running = s.running ∧ s.cancel.cancelFunc = s.cancelFunc := by
  rw [cancel]
  split
  all_goals exact ⟨rfl,rfl⟩

lemma cancel_inv (inv : Inv s) : Inv s.cancel := by
  obtain ⟨flag,record⟩ := cancel_record s
  refine ⟨fun policy i runs => ?_,fun policy i live => ?_⟩
  · rw [cancel_policy] at policy
    obtain ⟨set,only⟩ := inv.forbid policy i (cancel_running.mp runs)
    exact ⟨flag.trans set,fun j other => only j (cancel_running.mp other)⟩
  · rw [cancel_policy] at policy
    obtain ⟨set,named⟩ := inv.replace policy i (cancel_live live).1
    exact ⟨flag.trans set,record.trans named⟩

lemma start_inv (none_ : s.overlapPolicy = .forbid → ∀ i,¬s.Running i)
    (dead : s.overlapPolicy = .replace → ∀ i,¬s.Live i) : Inv s.start := by
  refine ⟨fun policy i runs => ⟨rfl,fun j other => ?_⟩,fun policy i live => ⟨rfl,?_⟩⟩
  · have first := (start_running.mp runs).resolve_left (none_ policy i)
    have second := (start_running.mp other).resolve_left (none_ policy j)
    exact first.trans second.symm
  · have here := (start_live live).resolve_left (dead policy i)
    rw [here]
    rfl

lemma dispatch_inv (inv : Inv s) : Inv s.dispatch := by
  rw [dispatch]
  split_ifs with paused running
  · exact inv
  · split
    next forbid => exact inv
    next replace =>
      refine start_inv (fun policy => ?_) (fun _ i live => ?_)
      · rw [cancel_policy,replace] at policy
        cases policy
      · obtain ⟨before,other⟩ := cancel_live live
        exact other (inv.replace replace i before).2
    next allow =>
      refine start_inv (fun policy => ?_) (fun policy => ?_)
      all_goals
        rw [allow] at policy
        cases policy
  · refine start_inv (fun policy i runs => ?_) (fun policy i live => ?_)
    · exact running (inv.forbid policy i runs).1
    · exact running (inv.replace policy i live).1

lemma finish_inv (inv : Inv s) (clean : Clean s (.finish k)) : Inv (s.finish k) := by
  by_cases here : s.Running k
  · have policies : (s.finish k).overlapPolicy = s.overlapPolicy := by
      obtain ⟨cancelled,found⟩ := here
      rw [finish,found]
    refine ⟨fun policy i runs => ?_,fun policy i live => ?_⟩
    · rw [policies] at policy
      obtain ⟨before,other⟩ := (finish_running here).mp runs
      exact absurd ((inv.forbid policy i before).2 k here) other
    · rw [policies] at policy
      obtain ⟨before,other⟩ := finish_live here live
      exact absurd (clean policy here i (List.getElem?_eq_some_iff.mp before).1 before) other
  · rw [finish_idle here]
    exact inv

lemma step_inv (inv : Inv s) {choice : Choice} (clean : Clean s choice) : Inv (s.step choice) := by
  cases choice with
  | dispatch => exact dispatch_inv inv
  | finish k => exact finish_inv inv clean
  | pause | resume => exact ⟨inv.forbid,inv.replace⟩
  | remove => exact cancel_inv inv

lemma step_policy (s : Schedule) (choice : Choice) : (s.step choice).overlapPolicy = s.overlapPolicy := by
  cases choice with
  | dispatch =>
    rw [step,dispatch]
    split_ifs
    · rfl
    · split
      · rfl
      · exact cancel_policy s
      · rfl
    · rfl
  | finish k =>
    rw [step,finish]
    split <;> rfl
  | pause | resume => rfl
  | remove => exact cancel_policy s

lemma clean_of_policy {policy : OverlapPolicy} (other : policy ≠ .replace) (choices : List Choice) :
    Along step Clean (new policy) choices := by
  refine Along.always (P := fun s => s.overlapPolicy = policy) (fun s choice same => (step_policy s choice).trans same) ?_ rfl choices
  intro s choice same
  cases choice with
  | finish k =>
    intro replace
    exact absurd (same.symm.trans replace) other
  | _ => trivial

/-- The overlap policy is enforced in every state of every run; under `OverlapReplace`, of every
run in which no execution finishes while another runs that is not cancelled. -/
theorem enforced_of_clean (policy : OverlapPolicy) (choices : List Choice)
    (clean : policy = .replace → Along step Clean (new policy) choices) :
    Throughout step Enforced (new policy) choices := by
  have admitted : Along step Clean (new policy) choices := by
    by_cases replace : policy = .replace
    · exact clean replace
    · exact clean_of_policy replace choices
  have start : Inv (new policy) := by
    refine ⟨fun _ i runs => ?_,fun _ i live => ?_⟩
    · obtain ⟨cancelled,found⟩ := runs
      cases found
    · cases live
  have kept : Throughout step Inv (new policy) choices :=
    Along.throughout (fun _ _ inv clean => step_inv inv clean) start admitted
  exact kept.mono (fun _ inv => inv.enforced)

instance (s : Schedule) (k : Nat) : Decidable (s.Running k) :=
  match found : s.executions[k]? with
  | some ⟨cancelled,false⟩ => .isTrue ⟨cancelled,found⟩
  | some ⟨_,true⟩ => .isFalse (fun ⟨_,runs⟩ => by rw [found] at runs; cases runs)
  | none => .isFalse (fun ⟨_,runs⟩ => by rw [found] at runs; cases runs)

instance (s : Schedule) (k : Nat) : Decidable (s.Live k) := inferInstanceAs (Decidable (s.executions[k]? = _))

instance (s : Schedule) (choice : Choice) : Decidable (s.Clean choice) := by
  cases choice <;> (unfold Clean; infer_instance)

/-- An execution is replaced, and its replacement finishes first. -/
theorem replaced_in_order :
    Throughout step Enforced (new .replace) [.dispatch,.dispatch,.finish 1,.finish 0,.dispatch] :=
  enforced_of_clean .replace _ (fun _ => by decide)

/-- A replaced execution finishes late and clears the record of its replacement, which the next
dispatch therefore does not cancel. -/
theorem two_uncancelled :
    ¬Throughout step Enforced (new .replace) [.dispatch,.dispatch,.finish 0,.dispatch] := by
  intro throughout
  have same := (throughout _ prefix_rfl).2 rfl 1 2 rfl rfl
  cases same

end Schedule

end Tempest.Cron.Overlap
