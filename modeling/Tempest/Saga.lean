import Mathlib.Data.List.Basic

/-! The sagas of `internal/saga`. The functions of a step run in a world that they may
change and on which their answers may depend; the trace records which function was
called, and in which order. -/
open List
namespace Tempest.Sagas

abbrev Error := String

structure Step (Context World : Type) where
  name : String
  execute : Context → World → Option Error × World
  compensate : Option (Context → World → Option Error × World)

inductive Call (Context World : Type)
  | execute (step : Step Context World)
  | compensate (step : Step Context World)

/-- The world, and what was called in it so far. -/
structure Scene (Context World : Type) where
  world : World
  trace : List (Call Context World) := []

structure Saga (Context World : Type) where
  steps : List (Step Context World) := []
  executed : List (Step Context World) := []
  completed : Bool := false
  failed : Bool := false
  err : Option Error := none

variable {Context World : Type}

def Step.callExecute (step : Step Context World) (ctx : Context) (s : Scene Context World) :
    Option Error × Scene Context World :=
  let answer := step.execute ctx s.world
  (answer.1,⟨answer.2,s.trace ++ [.execute step]⟩)

def Step.callCompensate (step : Step Context World) (ctx : Context) (s : Scene Context World) : Scene Context World :=
  match step.compensate with
  | some compensate => ⟨(compensate ctx s.world).2,s.trace ++ [.compensate step]⟩
  | none => s

namespace Saga

def addStep (saga : Saga Context World) (step : Step Context World) : Saga Context World :=
  { saga with steps := saga.steps ++ [step] }

def compensateFrom (executed : List (Step Context World)) (ctx : Context) : Nat → Scene Context World → Scene Context World
  | 0,s => s
  | i + 1,s =>
    match executed[i]? with
    | some step => compensateFrom executed ctx i (step.callCompensate ctx s)
    | none => compensateFrom executed ctx i s

def compensate (saga : Saga Context World) (ctx : Context) (s : Scene Context World) : Scene Context World :=
  compensateFrom saga.executed ctx saga.executed.length s

def executeSteps (ctx : Context) : List (Step Context World) → Saga Context World → Scene Context World →
    Option Error × Saga Context World × Scene Context World
  | [],saga,s => (none,{ saga with completed := true },s)
  | step :: rest,saga,s =>
    match step.callExecute ctx s with
    | (some err,s) =>
      let saga := { saga with failed := true,err := some err }
      (some err,saga,saga.compensate ctx s)
    | (none,s) => executeSteps ctx rest { saga with executed := saga.executed ++ [step] } s

def execute (saga : Saga Context World) (ctx : Context) (s : Scene Context World) :
    Option Error × Saga Context World × Scene Context World :=
  if saga.completed || saga.failed then (some "saga already finished",saga,s)
  else executeSteps ctx saga.steps saga s

end Saga

inductive Request (Context World : Type)
  | addStep (step : Step Context World)
  | execute (ctx : Context)

def perform : Saga Context World × Scene Context World → Request Context World → Saga Context World × Scene Context World
  | (saga,s),.addStep step => (saga.addStep step,s)
  | (saga,s),.execute ctx => (saga.execute ctx s).2

def run (before : Saga Context World × Scene Context World) (requests : List (Request Context World)) :
    Saga Context World × Scene Context World :=
  requests.foldl perform before

/-- The steps succeed one after the other and take the first world to the last. -/
inductive Succeeds (ctx : Context) : List (Step Context World) → World → World → Prop
  | none (w : World) : Succeeds ctx [] w w
  | step {step : Step Context World} {rest : List (Step Context World)} {w after : World}
      (succeeds : (step.execute ctx w).1 = .none) (later : Succeeds ctx rest (step.execute ctx w).2 after) :
      Succeeds ctx (step :: rest) w after

def compensations (executed : List (Step Context World)) : List (Call Context World) :=
  (executed.reverse.filter (fun step => step.compensate.isSome)).map .compensate

/-- The calls that a saga with these steps has to make from a world on. -/
inductive Calls (ctx : Context) (steps : List (Step Context World)) (w : World) : List (Call Context World) → Prop
  | completed {after : World} (all : Succeeds ctx steps w after) : Calls ctx steps w (steps.map .execute)
  | failed {done rest : List (Step Context World)} {step : Step Context World} {reached : World} {err : Error}
      (split : steps = done ++ step :: rest) (before : Succeeds ctx done w reached)
      (fails : (step.execute ctx reached).1 = some err) :
      Calls ctx steps w ((done ++ [step]).map .execute ++ compensations done)

lemma callCompensate_trace (step : Step Context World) (ctx : Context) (s : Scene Context World) :
    (step.callCompensate ctx s).trace = s.trace ++ compensations [step] := by
  unfold Step.callCompensate compensations
  cases present : step.compensate with
  | some compensate | none => simp [present]

lemma compensations_append (first last : List (Step Context World)) :
    compensations (first ++ last) = compensations last ++ compensations first := by
  simp [compensations]

lemma compensateFrom_trace (executed : List (Step Context World)) (ctx : Context) {i : Nat} (inside : i ≤ executed.length)
    (s : Scene Context World) :
    (Saga.compensateFrom executed ctx i s).trace = s.trace ++ compensations (executed.take i) := by
  induction i generalizing s with
  | zero => simp [Saga.compensateFrom,compensations]
  | succ i later =>
    have bound := inside
    rw [Saga.compensateFrom,getElem?_eq_getElem bound]
    rw [later (Nat.le_of_lt bound),callCompensate_trace,append_assoc,← compensations_append,take_append_getElem bound]

variable (saga : Saga Context World) {ctx : Context}

lemma compensate_trace (ctx : Context) (s : Scene Context World) :
    (saga.compensate ctx s).trace = s.trace ++ compensations saga.executed := by
  rw [Saga.compensate,compensateFrom_trace _ _ (Nat.le_refl _),take_length]

lemma Succeeds.append {done : List (Step Context World)} {w reached : World} {step : Step Context World}
    (before : Succeeds ctx done w reached) (succeeds : (step.execute ctx reached).1 = .none) :
    Succeeds ctx (done ++ [step]) w (step.execute ctx reached).2 := by
  induction before with
  | none w => exact .step succeeds (.none _)
  | step first _ later => exact .step first (later succeeds)

lemma executeSteps_calls {w : World} (s : Scene Context World)
    (rest : List (Step Context World)) (before : Succeeds ctx saga.executed w s.world)
    (trace : s.trace = saga.executed.map .execute) :
    Calls ctx (saga.executed ++ rest) w (Saga.executeSteps ctx rest saga s).2.2.trace := by
  induction rest generalizing saga s with
  | nil =>
    rw [append_nil,Saga.executeSteps,trace]
    exact .completed before
  | cons step rest later =>
    rw [Saga.executeSteps,Step.callExecute]
    cases answer : (step.execute ctx s.world).1 with
    | some err =>
      rw [compensate_trace,trace]
      have calls : Calls ctx (saga.executed ++ step :: rest) w _ := .failed rfl before answer
      rwa [map_append] at calls
    | none =>
      have continued := later { saga with executed := saga.executed ++ [step] }
        ⟨(step.execute ctx s.world).2,s.trace ++ [.execute step]⟩ (before.append answer) (by simp [trace])
      rwa [append_assoc] at continued

lemma executeSteps_finished (ctx : Context) (rest : List (Step Context World)) (saga : Saga Context World)
    (s : Scene Context World) :
    ((Saga.executeSteps ctx rest saga s).2.1.completed || (Saga.executeSteps ctx rest saga s).2.1.failed) = true := by
  induction rest generalizing saga s with
  | nil => rfl
  | cons step rest later =>
    rw [Saga.executeSteps]
    split
    · simp
    · exact later _ _

lemma execute_finished (ctx : Context) (s : Scene Context World) :
    ((saga.execute ctx s).2.1.completed || (saga.execute ctx s).2.1.failed) = true := by
  unfold Saga.execute
  split_ifs with finished
  · exact finished
  · exact executeSteps_finished ctx saga.steps saga s

lemma perform_finished {saga : Saga Context World} (finished : (saga.completed || saga.failed) = true)
    (s : Scene Context World) (request : Request Context World) : (perform (saga,s) request).2 = s ∧
      ((perform (saga,s) request).1.completed || (perform (saga,s) request).1.failed) = true := by
  cases request with
  | addStep step => exact ⟨rfl,finished⟩
  | execute ctx =>
    rw [perform,Saga.execute,if_pos finished]
    exact ⟨rfl,finished⟩

lemma run_finished {saga : Saga Context World} (finished : (saga.completed || saga.failed) = true)
    (s : Scene Context World) (requests : List (Request Context World)) : (run (saga,s) requests).2 = s := by
  induction requests generalizing saga s with
  | nil => rfl
  | cons request rest later =>
    obtain ⟨same,still⟩ := perform_finished finished s request
    change (run (perform (saga,s) request) rest).2 = s
    rw [later still,same]

lemma run_addSteps (s : Scene Context World) (steps : List (Step Context World)) :
    run (saga,s) (steps.map .addStep) = ({ saga with steps := saga.steps ++ steps },s) := by
  induction steps generalizing saga with
  | nil => simp [run]
  | cons step rest later =>
    change run (saga.addStep step,s) (rest.map .addStep) = _
    rw [later]
    simp [Saga.addStep]

lemma run_append (before : Saga Context World × Scene Context World) (first last : List (Request Context World)) :
    run before (first ++ last) = run (run before first) last := foldl_append

/-- A saga makes the calls that its steps ask for, whatever they answer, and no others
afterwards. -/
theorem saga_calls (steps : List (Step Context World)) (ctx : Context) (w : World) (later : List (Request Context World)) :
    Calls ctx steps w (run ({},⟨w,[]⟩) (steps.map .addStep ++ [.execute ctx])).2.trace ∧
      (run ({},⟨w,[]⟩) (steps.map .addStep ++ [.execute ctx] ++ later)).2.trace =
        (run ({},⟨w,[]⟩) (steps.map .addStep ++ [.execute ctx])).2.trace := by
  have executed : run (({}),⟨w,[]⟩) (steps.map .addStep ++ [.execute ctx]) =
      (({ steps } : Saga Context World).execute ctx ⟨w,[]⟩).2 := by
    rw [run_append,run_addSteps]
    rfl
  rw [run_append _ _ later,executed]
  constructor
  · exact executeSteps_calls { steps } ⟨w,[]⟩ steps (.none w) rfl
  · rw [run_finished (execute_finished _ _ _)]

end Tempest.Sagas
