import Mathlib.Data.List.Nodup
import Tempest.Types
import Tempest.Lib.Text

/-! Run creation and readiness, `internal/workflow`. -/
namespace Tempest.Workflow
open List

def hex : Int → String
  | .ofNat n => String.ofList (Nat.toDigits 16 n)
  | .negSucc n => "-" ++ String.ofList (Nat.toDigits 16 (n + 1))

def runID (unixNano : Int) : String := ":" ++ hex unixNano

def newRun (d : WorkflowDefinition) (input : RunInput) (now : Time) (unixNano : Int) :
    Except Classified Run :=
  if d.steps = [] then
    .error ⟨.invalidArgument,.text "definition must have at least one step"⟩
  else
    let input := { input with workflow := d.id }
    .ok {
      id := runID unixNano
      ns := input.workflow.ns
      workflow := input.workflow
      state := .pending
      input := input
      steps := d.steps.map (fun sd => { stepID := sd.id, state := .pending })
      createdAt := now }

variable (d : WorkflowDefinition)

lemma newRun_ok (input : RunInput) (now : Time) (unixNano : Int) (run : Run)
    (ok : newRun d input now unixNano = .ok run) : d.steps ≠ [] ∧ run = {
      id := runID unixNano,ns := d.id.ns,workflow := d.id,state := .pending
      input := { input with workflow := d.id }
      steps := d.steps.map (fun sd => { stepID := sd.id,state := .pending }),createdAt := now } := by
  unfold newRun at ok
  split_ifs at ok with empty
  cases ok
  exact ⟨empty,rfl⟩

def assign {β : Type} (m : String → β) (k : String) (v : β) : String → β :=
  fun other => if other = k then v else m other

def dependencies (d : WorkflowDefinition) : String → List String :=
  d.steps.foldl (fun deps sd => assign deps sd.id sd.dependsOn) (fun _ => [])

def stepStates (steps : List StepRun) : String → Option StepState :=
  steps.foldl (fun states s => assign states s.stepID (some s.state)) (fun _ => none)

def doneIn (steps : List StepRun) (dep : String) : Bool :=
  (stepStates steps dep).any StepState.isDone

def isReady (d : WorkflowDefinition) (steps : List StepRun) (s : StepRun) : Bool :=
  s.state = .pending ∧ (dependencies d s.stepID).all (doneIn steps)

def readySteps (d : WorkflowDefinition) (run : Run) : List StepRun :=
  run.steps.filter (isReady d run.steps)

section Assign

variable {α β : Type} (key : α → String) (value : α → β) (entries : List α)

lemma foldl_assign_absent (m : String → β) (k : String) (absent : k ∉ entries.map key) :
    entries.foldl (fun m a => assign m (key a) (value a)) m k = m k := by
  induction entries generalizing m with
  | nil => rfl
  | cons a rest ih =>
    simp only [map_cons,mem_cons,not_or] at absent
    rw [foldl_cons,ih _ absent.2,assign,if_neg absent.1]

lemma foldl_assign_distinct (m : String → β) (distinct : (entries.map key).Nodup)
    (a : α) (member : a ∈ entries) :
    entries.foldl (fun m a => assign m (key a) (value a)) m (key a) = value a := by
  induction entries generalizing m with
  | nil => cases member
  | cons b rest ih =>
    simp only [map_cons,nodup_cons] at distinct
    rw [foldl_cons]
    rcases mem_cons.mp member with rfl | inside
    · rw [foldl_assign_absent key value rest _ _ distinct.1,assign,if_pos rfl]
    · exact ih _ distinct.2 inside

end Assign

lemma dependencies_of_mem (distinct : (d.steps.map StepDefinition.id).Nodup)
    (sd : StepDefinition) (member : sd ∈ d.steps) : dependencies d sd.id = sd.dependsOn :=
  foldl_assign_distinct StepDefinition.id StepDefinition.dependsOn d.steps _ distinct sd member

variable (steps : List StepRun)

lemma stepStates_of_mem (distinct : (steps.map StepRun.stepID).Nodup) (s : StepRun)
    (member : s ∈ steps) : stepStates steps s.stepID = some s.state :=
  foldl_assign_distinct StepRun.stepID (fun s => some s.state) steps _ distinct s member

lemma stepStates_absent (id : String) (absent : id ∉ steps.map StepRun.stepID) : stepStates steps id = none :=
  foldl_assign_absent StepRun.stepID (fun s => some s.state) steps _ id absent

lemma runID_slash (n : Int) : '/' ∉ (runID n).toList := by
  cases n with
  | ofNat n => simpa [runID,hex] using Text.toDigits_slash 16 n (by decide) (by decide)
  | negSucc n => simpa [runID,hex] using Text.toDigits_slash 16 (n + 1) (by decide) (by decide)

end Tempest.Workflow
