import Tempest.Memstore
import Tempest.Lib.Relation

/-! The PostgreSQL store of `internal/persistence/pgstore`, over the tables that
`internal/migration` creates. Each statement has its standard meaning over
relations; columns keep what is written to them. What `encoding/json` makes of a
value, and the text of a constraint violation, belong to the driver. -/
namespace Tempest.Pgstore
open Filing

structure Driver (Json : Type) where
  marshalDefinitions : List StepDefinition → Json
  unmarshalDefinitions : Json → List StepDefinition
  marshalSteps : List StepRun → Json
  unmarshalSteps : Json → List StepRun
  marshalInput : RunInput → Json
  unmarshalInput : Json → RunInput
  duplicateKey : String

variable {Json : Type}

/-- A row of `workflow_definitions`. -/
structure DefinitionRow (Json : Type) where
  ns : String
  name : String
  version : Int
  steps : Json
  createdAt : Time
  updatedAt : Time

def DefinitionRow.key (row : DefinitionRow Json) : WorkflowID := ⟨row.ns,row.name,row.version⟩

/-- A row of `runs`. -/
structure RunRow (Json : Type) where
  ns : String
  id : String
  workflowName : String
  workflowVersion : Int
  state : RunState
  input : Json
  steps : Json
  error : Option String
  createdAt : Time
  startedAt : Option Time
  finishedAt : Option Time

def RunRow.key (row : RunRow Json) : String × String := (row.ns,row.id)

structure Db (Json : Type) where
  definitions : Table (@DefinitionRow.key Json)
  runs : Table (@RunRow.key Json)

def Db.new : Db Json := ⟨.empty,.empty⟩

variable (driver : Driver Json)

def definitionRow (now : Time) (d : WorkflowDefinition) : DefinitionRow Json where
  ns := d.id.ns
  name := d.id.name
  version := d.id.version
  steps := driver.marshalDefinitions d.steps
  createdAt := d.createdAt
  updatedAt := now

def createDefinition (db : Db Json) (now : Time) (d : WorkflowDefinition) : Db Json :=
  let row := definitionRow driver now d
  { db with definitions :=
      Relation.upsert db.definitions row (fun old => { old with steps := row.steps, updatedAt := row.updatedAt }) }

def scanDefinition (row : DefinitionRow Json) : WorkflowDefinition where
  id := ⟨row.ns,row.name,row.version⟩
  steps := driver.unmarshalDefinitions row.steps
  createdAt := row.createdAt
  updatedAt := row.updatedAt

def getDefinitionByName (db : Db Json) (ns : Namespace) (name : String) : Except Classified WorkflowDefinition :=
  match Relation.selectLast db.definitions (fun row => row.ns = ns ∧ row.name = name) DefinitionRow.version with
  | none => .error (.of .notFound)
  | some row => .ok (scanDefinition driver row)

def getDefinition (db : Db Json) (id : WorkflowID) : Except Classified WorkflowDefinition :=
  getDefinitionByName driver db id.ns id.name

def runRow (r : Run) : RunRow Json where
  ns := r.ns
  id := r.id
  workflowName := r.workflow.name
  workflowVersion := r.workflow.version
  state := r.state
  input := driver.marshalInput r.input
  steps := driver.marshalSteps r.steps
  error := some r.error
  createdAt := r.createdAt
  startedAt := none
  finishedAt := none

def createRun (db : Db Json) (r : Run) : Except Classified (Db Json) :=
  match Relation.insert db.runs (runRow driver r) with
  | none => .error ⟨.internal,.text ("create run: " ++ driver.duplicateKey)⟩
  | some runs => .ok { db with runs }

def scanRun (row : RunRow Json) : Run where
  id := row.id
  ns := row.ns
  workflow := ⟨"",row.workflowName,row.workflowVersion⟩
  state := row.state
  input := driver.unmarshalInput row.input
  steps := driver.unmarshalSteps row.steps
  error := row.error.getD ""
  createdAt := row.createdAt
  startedAt := row.startedAt
  finishedAt := row.finishedAt

def getRun (db : Db Json) (ns : Namespace) (id : String) : Except Classified Run :=
  match db.runs.lookup (ns,id) with
  | none => .error (.of .notFound)
  | some row => .ok (scanRun driver row)

omit driver in
def updateRunState (db : Db Json) (ns : Namespace) (id : String) (state : RunState) (_stamp : Time) :
    Except Classified (Db Json) :=
  match Relation.update db.runs (fun row => row.ns = ns ∧ row.id = id) (fun row => { row with state }) (fun _ => rfl) with
  | (0,_) => .error (.of .notFound)
  | (_,runs) => .ok { db with runs }

section Update

variable (db : Db Json) {ns : Namespace} {id : String} (state : RunState) (stamp : Time)

lemma updateRunState_absent (absent : ∀ row ∈ db.runs.rows,¬ (row.ns = ns ∧ row.id = id)) :
    updateRunState db ns id state stamp = .error (.of .notFound) := by
  have affected : db.runs.rows.filter (fun row => row.ns = ns ∧ row.id = id) = [] := by
    rw [List.filter_eq_nil_iff]
    intro row stored
    simpa using absent row stored
  simp only [updateRunState,Relation.update,affected,List.length_nil]

lemma updateRunState_found {row : RunRow Json} (stored : row ∈ db.runs.rows) (sameNs : row.ns = ns)
    (sameID : row.id = id) :
    updateRunState db ns id state stamp = .ok { db with runs :=
      (Relation.update db.runs (fun row => row.ns = ns ∧ row.id = id) (fun row => { row with state }) (fun _ => rfl)).2 } := by
  have affected : row ∈ db.runs.rows.filter (fun row => row.ns = ns ∧ row.id = id) := by
    rw [List.mem_filter]
    exact ⟨stored,by simp [sameNs,sameID]⟩
  have some_ :=
    List.length_pos_iff.mpr (List.ne_nil_of_mem affected) |>.ne'
  unfold updateRunState
  split
  · rename_i none_
    exact absurd (congrArg Prod.fst none_) some_
  · rename_i result
    rw [result]

end Update

end Tempest.Pgstore
