import Tempest.History

/-! Workers that process leases at the same time. A poll hands out leases and
starts a `processLease` call for each of them; from then on the calls perform
their atomic operations in any order. The label of a call records its own copy of
the run and how far the call has come, and every call keeps to one discipline. -/
namespace Tempest
open Interaction Filing Engine

/-- How far a call has come: it holds its lease until `CompleteStep` has answered,
and once it has stored its step as SUCCEEDED it is bound to enqueue steps or to
promote the run. -/
inductive Stage
  | leased | executed | completed | enqueueing | promoting | settled
  deriving DecidableEq

def Stage.marks : Stage → Option StepState
  | .leased => some .running
  | .completed => some .succeeded
  | .enqueueing => some .queued
  | .executed | .promoting | .settled => none

structure Worker where
  lease : QueueLease
  copy : Option Run := none
  stage : Stage := .leased
  deriving DecidableEq

namespace Worker

def holds (l : Worker) : Bool := l.stage = .leased ∨ l.stage = .executed

def wrote (l : Worker) (copy : Option Run) : Worker :=
  { l with
    copy
    stage :=
      if l.stage = .completed then if copy.any allDone then .promoting else .enqueueing else l.stage }

def observe (l : Worker) : (op : Op) → op.Res → Worker
  | .getRun .., .ok run => { l with copy := some run }
  | .execute .., _ => { l with stage := .executed }
  | .completeStep .., _ => { l with stage := .completed }
  | .updateStepState _ _ step, _ => l.wrote (l.copy.map (Run.putStep step))
  | .updateRunState .., _ => { l with stage := .settled }
  | _, _ => l

def permitted (l : Worker) : Op → Prop
  | .now | .emit _ => True
  | .getRun ns id => l.stage = .leased ∧ ns = l.lease.item.ns ∧ id = l.lease.item.runID
  | .getDefinition _ => l.stage = .leased
  | .execute _ run handle =>
    l.stage = .leased ∧ run.ns = l.lease.item.ns ∧ run.id = l.lease.item.runID ∧
      handle.stepID = l.lease.item.stepID
  | .completeStep ns runID stepID _ =>
    l.stage = .executed ∧ ns = l.lease.item.ns ∧ runID = l.lease.item.runID ∧ stepID = l.lease.item.stepID
  | .updateStepState ns id step =>
    l.stage.marks = some step.state ∧
      ∃ copy, l.copy = some copy ∧ ns = copy.ns ∧ id = copy.id ∧ step.stepID ∈ copy.ids
  | .enqueue item =>
    l.stage = .enqueueing ∧
      ∃ copy, l.copy = some copy ∧ item.ns = copy.ns ∧ item.runID = copy.id ∧ item.stepID ∈ copy.ids
  | .updateRunState ns id target _ =>
    l.stage = .promoting ∧ target = .succeeded ∧ ∃ copy, l.copy = some copy ∧ ns = copy.ns ∧ id = copy.id
  | _ => False

def credible (l : Worker) : (op : Op) → op.Res → Prop
  | .getRun .., .ok run =>
    run.ns = l.lease.item.ns ∧ run.id = l.lease.item.runID ∧ l.lease.item.stepID ∈ run.ids
  | .execute .., answer => ∃ result, answer = .ok result ∧ result.error = none
  | _, _ => True

def discipline : Discipline Op.Res Worker := ⟨observe,permitted,credible,fun l => l.stage ≠ .promoting⟩

end Worker

lemma changeStep_of_mem (id : String) (change : StepRun → StepRun) (steps : List StepRun)
    (member : id ∈ steps.map StepRun.stepID) : ∃ s ∈ steps,s.stepID = id ∧
      Engine.changeStep id change steps = some (change s,modifyStep id change steps) := by
  induction steps with
  | nil => cases member
  | cons s rest ih =>
    by_cases same : s.stepID = id
    · refine ⟨s,by simp,same,?_⟩
      rw [Engine.changeStep,modifyStep,if_pos same,if_pos same]
    · have later : id ∈ rest.map StepRun.stepID := by
        rcases List.mem_cons.mp member with here | inside
        · exact absurd here.symm same
        · exact inside
      obtain ⟨t,inside,named,found⟩ := ih later
      refine ⟨t,List.mem_cons_of_mem _ inside,named,?_⟩
      rw [Engine.changeStep,modifyStep,if_neg same,if_neg same,found]
      rfl

namespace Engine

variable {l : Worker} {run : Run}

section
variable (copy : l.copy = some run)
include copy

lemma storeStep_bind_obeys {α : Type} (id : String)
    (change : StepRun → StepRun) (keepsID : ∀ s,s.stepID = id → (change s).stepID = id)
    (rest : Run → M α) (member : id ∈ run.ids) (state : StepState) (becomes : ∀ s,(change s).state = state)
    (marks : l.stage.marks = some state)
    (continues : (rest { run with steps := modifyStep id change run.steps }).Obeys Worker.discipline
      (l.wrote (some { run with steps := modifyStep id change run.steps }))) :
    (storeStep run id change >>= rest).Obeys Worker.discipline l := by
  obtain ⟨s,inside,named,found⟩ := changeStep_of_mem id change run.steps member
  obtain ⟨_,_,agree⟩ := changeStep_some id change keepsID run.steps _ _ found
  have puts : run.putStep (change s) = { run with steps := modifyStep id change run.steps } := by
    rw [Run.putStep,replaceStep_eq,keepsID s named,agree]
  unfold storeStep
  rw [found]
  refine ⟨⟨by rw [becomes]; exact marks,run,copy,rfl,rfl,?_⟩,fun answer _ => ?_⟩
  · rw [keepsID s named]
    exact member
  · have follows : Worker.discipline.observe l (.updateStepState run.ns run.id (change s)) answer =
        l.wrote (some { run with steps := modifyStep id change run.steps }) := by
      rw [← puts]
      change l.wrote (l.copy.map _) = _
      rw [copy]
      rfl
    rw [follows]
    exact continues

lemma enqueueEach_obeys (stage : l.stage = .enqueueing) (now : Time)
    (ready : List StepRun) (inside : ∀ s ∈ ready,s.stepID ∈ run.ids) :
    (enqueueEach now run ready).Obeys Worker.discipline l := by
  induction ready generalizing run l with
  | nil => exact fun wrong => by rw [stage] at wrong; cases wrong
  | cons s rest ih =>
    refine ⟨⟨stage,run,copy,rfl,rfl,inside s (by simp)⟩,fun answer _ => ?_⟩
    cases answer with
    | error e => exact fun (wrong : l.stage = .promoting) => by rw [stage] at wrong; cases wrong
    | ok _ =>
      refine storeStep_bind_obeys copy s.stepID toQueued (fun _ same => same) _ (inside s (by simp)) .queued
        (fun _ => rfl) (by rw [stage]; rfl) ⟨trivial,fun _ _ => ?_⟩
      refine ih rfl (by simp [Worker.wrote,stage,Worker.observe,Worker.discipline]) ?_
      intro t member
      rw [Run.ids,modifyStep_ids s.stepID toQueued (fun _ same => same)]
      exact inside t (List.mem_cons_of_mem _ member)

lemma promoteOrEnqueue_obeys (stage : l.stage = if allDone run then .promoting else .enqueueing) (d : WorkflowDefinition) :
    (promoteOrEnqueue d run).Obeys Worker.discipline l := by
  unfold promoteOrEnqueue
  split_ifs at stage ⊢ with done
  · refine ⟨trivial,fun now _ => ⟨⟨stage,rfl,run,copy,rfl,rfl⟩,fun _ _ => ⟨trivial,fun _ _ => ?_⟩⟩⟩
    exact fun wrong => by cases wrong
  · refine ⟨trivial,fun now _ => enqueueEach_obeys copy stage now _ ?_⟩
    intro s member
    exact List.mem_map.mpr ⟨s,(List.mem_filter.mp member).1,rfl⟩

lemma completeStep_obeys (stage : l.stage = .executed)
    (member : l.lease.item.stepID ∈ run.ids) (d : WorkflowDefinition) (output : Object) :
    (completeStep run d l.lease output).Obeys Worker.discipline l := by
  refine ⟨trivial,fun now _ => ⟨⟨stage,rfl,rfl,rfl⟩,fun answer _ => ?_⟩⟩
  cases answer with
  | error e => exact fun wrong => by cases wrong
  | ok _ =>
    have completed : ({ l with stage := .completed } : Worker).copy = some run := copy
    exact storeStep_bind_obeys completed l.lease.item.stepID (succeeded now output) (fun _ same => same) _ member
      .succeeded (fun _ => rfl) rfl ⟨trivial,fun _ _ => promoteOrEnqueue_obeys rfl rfl d⟩

lemma runHandler_obeys (stage : l.stage = .leased)
    (ns : run.ns = l.lease.item.ns) (id : run.id = l.lease.item.runID)
    (member : l.lease.item.stepID ∈ run.ids) (d : WorkflowDefinition) (sd : StepDefinition) :
    (runHandler run d sd l.lease).Obeys Worker.discipline l := by
  refine ⟨trivial,fun started _ => ?_⟩
  let toRunning : StepRun → StepRun := fun step => { step with state := .running,startedAt := some started }
  have ids : (modifyStep l.lease.item.stepID toRunning run.steps).map StepRun.stepID = run.ids :=
    modifyStep_ids _ toRunning (fun _ same => same) run.steps
  refine storeStep_bind_obeys copy l.lease.item.stepID toRunning (fun _ same => same) _ member .running
    (fun _ => rfl) (by rw [stage]; rfl) ?_
  refine ⟨trivial,fun now _ => ⟨trivial,fun _ _ => ⟨⟨?_,ns,id,rfl⟩,fun result succeeded => ?_⟩⟩⟩
  · simp [Worker.wrote,stage,Worker.observe,Worker.discipline]
  · obtain ⟨answer,rfl,clean⟩ := succeeded
    dsimp only [Prog.bind,settleResult]
    rw [clean]
    have member' : l.lease.item.stepID ∈ (modifyStep l.lease.item.stepID toRunning run.steps).map StepRun.stepID := by
      rw [ids]
      exact member
    exact completeStep_obeys rfl rfl member' d answer.output

end

lemma processLease_obeys {env : Env} (reliable : env.Reliable) (lease : QueueLease) :
    (processLease env lease).Obeys Worker.discipline ⟨lease,none,.leased⟩ := by
  refine ⟨⟨rfl,rfl,rfl⟩,fun found fits => ?_⟩
  cases found with
  | error e => exact fun wrong => by cases wrong
  | ok run =>
    obtain ⟨ns,id,member⟩ := fits
    refine ⟨rfl,fun definition _ => ?_⟩
    cases definition with
    | error e => exact fun wrong => by cases wrong
    | ok d =>
      dsimp only [Prog.bind]
      cases findStepDef d lease.item.stepID with
      | none => exact fun wrong => by cases wrong
      | some sd =>
        dsimp only
        rw [if_pos (reliable.registered sd.handler)]
        exact runHandler_obeys (l := ⟨lease,some run,.leased⟩) rfl rfl ns id member d sd

end Engine

end Tempest
