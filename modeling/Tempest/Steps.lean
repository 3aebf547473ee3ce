import Tempest.Engine
import Tempest.Progress

/-! Lists of steps. The engine and the store both change the first step with a
given id; `modifyStep` is that change as a total function. The status of the
steps of a run is what `ReadySteps` computes of it, a map from ids to states. -/
namespace Tempest
open Progress Workflow List

def modifyStep (id : String) (change : StepRun → StepRun) : List StepRun → List StepRun
  | [] => []
  | s :: rest => if s.stepID = id then change s :: rest else s :: modifyStep id change rest

lemma modifyStep_ids (id : String) (change : StepRun → StepRun)
    (keepsID : ∀ s,s.stepID = id → (change s).stepID = id) (steps : List StepRun) : (modifyStep id change steps).map StepRun.stepID = steps.map StepRun.stepID := by
  induction steps with
  | nil => rfl
  | cons s rest ih =>
    unfold modifyStep
    split_ifs with same
    · rw [map_cons,map_cons,keepsID s same,same]
    · rw [map_cons,map_cons,ih]

lemma modifyStep_modifyStep (id : String) (first second : StepRun → StepRun)
    (keepsID : ∀ s,s.stepID = id → (first s).stepID = id) (steps : List StepRun) :
    modifyStep id second (modifyStep id first steps) = modifyStep id (second ∘ first) steps := by
  induction steps with
  | nil => rfl
  | cons s rest ih =>
    by_cases same : s.stepID = id
    · simp [modifyStep,same,keepsID s same]
    · simp [modifyStep,same,ih]

lemma modifyStep_distinct (id : String) (change : StepRun → StepRun) (steps : List StepRun)
    (distinct : (steps.map StepRun.stepID).Nodup) :
    modifyStep id change steps = steps.map (fun s => if s.stepID = id then change s else s) := by
  induction steps with
  | nil => rfl
  | cons s rest ih =>
    simp only [map_cons,nodup_cons] at distinct
    unfold modifyStep
    split_ifs with same
    · have others : rest.map (fun s => if s.stepID = id then change s else s) = rest := by
        conv_rhs => rw [← map_id rest]
        apply map_congr_left
        intro t member
        have different : t.stepID ≠ id := by
          intro equal
          exact distinct.1 (mem_map.mpr ⟨t,member,equal.trans same.symm⟩)
        simp [different]
      simp [same,others]
    · simp [same,ih distinct.2]

lemma replaceStep_eq (step : StepRun) (steps : List StepRun) :
    (replaceStep step steps).getD steps = modifyStep step.stepID (fun _ => step) steps := by
  induction steps with
  | nil => rfl
  | cons s rest ih =>
    unfold replaceStep modifyStep
    split_ifs
    · rfl
    · rw [← ih]
      cases replaceStep step rest <;> rfl

lemma changeStep_none (id : String) (change : StepRun → StepRun) (steps : List StepRun)
    (missing : Engine.changeStep id change steps = none) : modifyStep id change steps = steps := by
  induction steps with
  | nil => rfl
  | cons s rest ih =>
    unfold Engine.changeStep at missing
    split_ifs at missing with same
    rw [modifyStep,if_neg same,ih (Option.map_eq_none_iff.mp missing)]

lemma changeStep_some (id : String) (change : StepRun → StepRun)
    (keepsID : ∀ s,s.stepID = id → (change s).stepID = id) (steps changed : List StepRun) (step : StepRun)
    (found : Engine.changeStep id change steps = some (step,changed)) :
    step.stepID = id ∧ changed = modifyStep id change steps ∧
      modifyStep id (fun _ => step) steps = modifyStep id change steps := by
  induction steps generalizing changed with
  | nil => cases found
  | cons s rest ih =>
    unfold Engine.changeStep at found
    split_ifs at found with same
    · cases found
      refine ⟨keepsID s same,?_,?_⟩
      · rw [modifyStep,if_pos same]
      · rw [modifyStep,modifyStep,if_pos same,if_pos same]
    · obtain ⟨⟨first,others⟩,inner,equal⟩ := Option.map_eq_some_iff.mp found
      cases equal
      obtain ⟨named,tail,agree⟩ := ih others inner
      refine ⟨named,?_,?_⟩
      · rw [modifyStep,if_neg same,tail]
      · rw [modifyStep,modifyStep,if_neg same,if_neg same,agree]

def toQueued (s : StepRun) : StepRun := { s with state := .queued }

def markQueued (ready steps : List StepRun) : List StepRun :=
  ready.foldl (fun steps s => modifyStep s.stepID toQueued steps) steps

lemma markQueued_ids (ready steps : List StepRun) :
    (markQueued ready steps).map StepRun.stepID = steps.map StepRun.stepID := by
  induction ready generalizing steps with
  | nil => rfl
  | cons s rest ih => exact (ih _).trans (modifyStep_ids s.stepID toQueued (fun _ same => same) steps)

def Run.ids (r : Run) : List String := r.steps.map StepRun.stepID

def Run.status (r : Run) : Status String := Workflow.stepStates r.steps

/-- The run with its ready steps queued. -/
def Run.released (r : Run) (d : WorkflowDefinition) : Run := { r with steps := markQueued (readySteps d r) r.steps }

lemma released_ids (r : Run) (d : WorkflowDefinition) : (r.released d).ids = r.ids := markQueued_ids _ _

section Status

variable {steps : List StepRun} (distinct : (steps.map StepRun.stepID).Nodup)

include distinct

lemma stepStates_modifyStep (id : String) (member : id ∈ steps.map StepRun.stepID)
    (change : StepRun → StepRun) (keepsID : ∀ s,s.stepID = id → (change s).stepID = id) (target : StepState)
    (becomes : ∀ s,(change s).state = target) : stepStates (modifyStep id change steps) =
      Function.update (stepStates steps) id (some target) := by
  have ids := modifyStep_ids id change keepsID steps
  have stillDistinct : ((modifyStep id change steps).map StepRun.stepID).Nodup := by rwa [ids]
  funext x
  by_cases known : x ∈ steps.map StepRun.stepID
  · obtain ⟨s,inside,rfl⟩ := mem_map.mp known
    have changed : (if s.stepID = id then change s else s) ∈ modifyStep id change steps := by
      rw [modifyStep_distinct id change steps distinct]
      exact mem_map.mpr ⟨s,inside,rfl⟩
    have after := stepStates_of_mem _ stillDistinct _ changed
    split_ifs at after with same
    · rw [keepsID s same,becomes] at after
      rw [same,after,Function.update_self]
    · rw [after,Function.update_of_ne same,stepStates_of_mem steps distinct s inside]
  · have different : x ≠ id := by
      intro same
      exact known (same ▸ member)
    rw [Function.update_of_ne different,stepStates_absent steps x known]
    exact stepStates_absent _ x (by rwa [ids])

lemma stepStates_markQueued (ready : List StepRun)
    (inside : ∀ s ∈ ready,s.stepID ∈ steps.map StepRun.stepID) (x : String) :
    stepStates (markQueued ready steps) x =
      if x ∈ ready.map StepRun.stepID then some .queued else stepStates steps x := by
  induction ready generalizing steps with
  | nil => rfl
  | cons s rest ih =>
    have ids := modifyStep_ids s.stepID toQueued (fun _ same => same) steps
    have first := stepStates_modifyStep distinct s.stepID (inside s (by simp)) toQueued
      (fun _ same => same) .queued (fun _ => rfl)
    have others := ih ((congrArg List.Nodup ids).mpr distinct)
      (fun t member => by rw [ids]; exact inside t (mem_cons_of_mem _ member))
    change stepStates (markQueued rest (modifyStep s.stepID toQueued steps)) x = _
    rw [others,first]
    by_cases later : x ∈ rest.map StepRun.stepID
    · simp [later]
    · by_cases same : x = s.stepID
      · simp [same]
      · simp [later,same]

end Status

section Distinct

variable (d : WorkflowDefinition) (run : Run) (distinct : run.ids.Nodup)

include distinct

lemma status_isSome {id : String} (known : id ∈ run.ids) : (run.status id).isSome := by
  obtain ⟨s,member,rfl⟩ := mem_map.mp known
  rw [Run.status,stepStates_of_mem run.steps distinct s member]
  rfl

lemma readySteps_ready (x : String) :
    x ∈ (readySteps d run).map StepRun.stepID ↔ Ready (dependencies d) run.status x := by
  simp only [readySteps,isReady,mem_map,mem_filter,Bool.decide_and,
    Bool.and_eq_true,decide_eq_true_eq,all_eq_true]
  constructor
  · rintro ⟨s,⟨member,pending,done⟩,rfl⟩
    exact ⟨(stepStates_of_mem _ distinct s member).trans (by rw [pending]),done⟩
  · intro ready
    have known : x ∈ run.steps.map StepRun.stepID := by
      by_contra absent
      have missing := stepStates_absent run.steps x absent
      rw [Ready,Run.status,missing] at ready
      cases ready.1
    obtain ⟨s,member,rfl⟩ := mem_map.mp known
    have state := (stepStates_of_mem _ distinct s member).symm.trans ready.1
    exact ⟨s,⟨member,Option.some.inj state,ready.2⟩,rfl⟩

lemma released_status : (run.released d).status = release (dependencies d) run.status := by
  funext x
  have inside : ∀ s ∈ readySteps d run,s.stepID ∈ run.ids := fun s member => mem_map.mpr ⟨s,(mem_filter.mp member).1,rfl⟩
  refine (stepStates_markQueued distinct _ inside x).trans ?_
  simp only [readySteps_ready d run distinct,release]
  rfl

lemma allDone_iff : Engine.allDone run = true ↔ ∀ id ∈ run.ids,Done run.status id := by
  simp only [Engine.allDone,all_eq_true]
  constructor
  · intro done id member
    obtain ⟨s,inside,rfl⟩ := mem_map.mp member
    unfold Done Run.status
    rw [stepStates_of_mem _ distinct s inside]
    exact done s inside
  · intro done s inside
    have here := done s.stepID (mem_map.mpr ⟨s,inside,rfl⟩)
    unfold Done Run.status at here
    rw [stepStates_of_mem _ distinct s inside] at here
    exact here

end Distinct

end Tempest
