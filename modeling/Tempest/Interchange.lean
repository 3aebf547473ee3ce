import Tempest.Pgstore
import Tempest.Keys
import Tempest.Lib.Interaction

/-! The two stores behind one interface. The same calls are made on both, from empty
stores; the ledger of the calls says which definitions and runs were created,
when, and which states the runs were given. -/
open List
namespace Tempest.Interchange
open Interaction Filing Pgstore

inductive Request
  | createDefinition (d : WorkflowDefinition)
  | getDefinition (id : WorkflowID)
  | getDefinitionByName (ns : Namespace) (name : String)
  | createRun (r : Run)
  | getRun (ns : Namespace) (id : String)
  | updateRunState (ns : Namespace) (id : String) (target : RunState) (stamp : Time)

/-- A request, the instant that the second store reads from its clock and the order in
which the first one iterates over a map. -/
structure Call where
  request : Request
  now : Time := 0
  order : List String := []

inductive Answer
  | done
  | definition (d : WorkflowDefinition)
  | run (r : Run)
  | failed (cls : ErrorClass)
  deriving DecidableEq

def answer {α : Type} (found : α → Answer) : Except Classified α → Answer
  | .ok value => found value
  | .error e => .failed e.cls

def settle {α : Type} (old : α) : Except Classified α → Answer × α
  | .ok new => (.done,new)
  | .error e => (.failed e.cls,old)

def memstore (s : Store) (c : Call) : Answer × Store :=
  match c.request with
  | .createDefinition d => settle s (s.createDefinition d)
  | .getDefinition id => (answer .definition (s.getDefinition id),s)
  | .getDefinitionByName ns name => (answer .definition (s.getDefinitionByName c.order ns name),s)
  | .createRun r => settle s (s.createRun r)
  | .getRun ns id => (answer .run (s.getRun ns id),s)
  | .updateRunState ns id target stamp => settle s (s.updateRunState ns id target stamp)

variable {Json : Type} (driver : Driver Json)

def pgstore (db : Db Json) (c : Call) : Answer × Db Json :=
  match c.request with
  | .createDefinition d => (.done,createDefinition driver db c.now d)
  | .getDefinition id => (answer .definition (getDefinition driver db id),db)
  | .getDefinitionByName ns name => (answer .definition (getDefinitionByName driver db ns name),db)
  | .createRun r => settle db (createRun driver db r)
  | .getRun ns id => (answer .run (getRun driver db ns id),db)
  | .updateRunState ns id target stamp => settle db (updateRunState db ns id target stamp)

structure Stores (Json : Type) where
  memory : Store
  database : Db Json

def Stores.new : Stores Json := ⟨.new,.new⟩

def perform (s : Stores Json) (c : Call) : Stores Json := ⟨(memstore s.memory c).2,(pgstore driver s.database c).2⟩

def Agree (s : Stores Json) (c : Call) : Prop := (memstore s.memory c).1 = (pgstore driver s.database c).1

instance (s : Stores Json) (c : Call) : Decidable (Agree driver s c) := inferInstanceAs (Decidable (_ = _))

structure CreatedDefinition where
  definition : WorkflowDefinition
  instant : Time

structure CreatedRun where
  run : Run
  updates : List (RunState × Time) := []

structure Ledger where
  definitions : List CreatedDefinition := []
  runs : List CreatedRun := []

def CreatedRun.update (e : CreatedRun) (ns : Namespace) (id : String) (target : RunState) (stamp : Time) : CreatedRun :=
  if e.run.ns = ns ∧ e.run.id = id then { e with updates := e.updates ++ [(target,stamp)] } else e

def Ledger.record (l : Ledger) (c : Call) : Ledger :=
  match c.request with
  | .createDefinition d => { l with definitions := l.definitions ++ [⟨d,c.now⟩] }
  | .createRun r => { l with runs := l.runs ++ [{ run := r }] }
  | .updateRunState ns id target stamp => { l with runs := l.runs.map (fun e => e.update ns id target stamp) }
  | .getDefinition _ | .getDefinitionByName .. | .getRun .. => l

def Ledger.Newest (l : Ledger) (e : CreatedDefinition) : Prop :=
  ∀ o ∈ l.definitions, o.definition.id.ns = e.definition.id.ns → o.definition.id.name = e.definition.id.name →
    o.definition.id.version ≤ e.definition.id.version

/-- The definition has only what the table has columns for, its steps survive JSON and
its `UpdatedAt` is the instant of the creation. -/
structure Storable (e : CreatedDefinition) : Prop where
  steps : driver.unmarshalDefinitions (driver.marshalDefinitions e.definition.steps) = e.definition.steps
  updatedAt : e.definition.updatedAt = e.instant
  description : e.definition.description = ""
  tags : e.definition.tags = []
  timeout : e.definition.timeout = 0

/-- The run has only what the table has columns for, which leaves out the namespace of
its workflow, its input and steps survive JSON, and it has no instants: it was
created without and has been PENDING or QUEUED ever since. -/
structure StorableRun (e : CreatedRun) : Prop where
  input : driver.unmarshalInput (driver.marshalInput e.run.input) = e.run.input
  steps : driver.unmarshalSteps (driver.marshalSteps e.run.steps) = e.run.steps
  workflow : e.run.workflow.ns = ""
  attempt : e.run.attempt = 0
  labels : e.run.labels = []
  parentRunID : e.run.parentRunID = ""
  startedAt : e.run.startedAt = none
  finishedAt : e.run.finishedAt = none
  waiting : ∀ u ∈ e.updates, u.1 = .pending ∨ u.1 = .queued

def Harmless (l : Ledger) (c : Call) : Prop :=
  match c.request with
  | .createDefinition d => ∀ e ∈ l.definitions, e.definition.key ≠ d.key
  | .getDefinition id =>
    (∀ e ∈ l.definitions, e.definition.key ≠ id.key ∧
      ¬ (e.definition.id.ns = id.ns ∧ e.definition.id.name = id.name)) ∨
    ∃ e ∈ l.definitions, e.definition.id = id ∧ l.Newest e ∧ Storable driver e
  | .getDefinitionByName ns name =>
    ∀ e ∈ l.definitions, e.definition.id.ns = ns → e.definition.id.name = name → l.Newest e → Storable driver e
  | .createRun r => ∀ e ∈ l.runs, e.run.key ≠ r.key
  | .getRun ns id =>
    (∀ e ∈ l.runs, e.run.key ≠ runKey ns id) ∨ ∃ e ∈ l.runs, e.run.ns = ns ∧ e.run.id = id ∧ StorableRun driver e
  | .updateRunState ns id _ _ =>
    (∀ e ∈ l.runs, e.run.key ≠ runKey ns id) ∨ ∃ e ∈ l.runs, e.run.ns = ns ∧ e.run.id = id

lemma storable_iff (e : CreatedDefinition) :
    scanDefinition driver (definitionRow driver e.instant e.definition) = e.definition ↔ Storable driver e := by
  obtain ⟨⟨id,steps,createdAt,updatedAt,description,tags,timeout⟩,instant⟩ := e
  simp only [scanDefinition,definitionRow,WorkflowDefinition.mk.injEq,true_and]
  constructor
  all_goals
    rintro ⟨kept,updated,text,pairs,limit⟩
    exact ⟨kept,updated.symm,text.symm,pairs.symm,limit.symm⟩

variable {d : WorkflowDefinition} {ns : Namespace} {id : String}

lemma definitionRow_free {other : WorkflowDefinition} (apart : other.key ≠ d.key) (instant now : Time) :
    (definitionRow driver instant other).key ≠ (definitionRow driver now d).key := by
  intro filed
  apply apart
  have same : other.id = d.id := filed
  rw [WorkflowDefinition.key,same]
  rfl

namespace CreatedRun

def stored (e : CreatedRun) : Run := e.updates.foldl (fun r u => Store.Run.withState r u.1 u.2) e.run

def state (e : CreatedRun) : RunState := e.updates.foldl (fun _ u => u.1) e.run.state

def row (e : CreatedRun) : RunRow Json := { runRow driver e.run with state := e.state }

end CreatedRun

lemma withState_fields (r : Run) (target : RunState) (stamp : Time) :
    ∃ started finished,Store.Run.withState r target stamp =
      { r with state := target,startedAt := started,finishedAt := finished } := by
  unfold Store.Run.withState
  dsimp only
  split_ifs
  all_goals exact ⟨_,_,rfl⟩

lemma withState_unstamped (r : Run) (target : RunState) (stamp : Time) :
    ((Store.Run.withState r target stamp).startedAt = none ∧ (Store.Run.withState r target stamp).finishedAt = none) ↔
      (r.startedAt = none ∧ r.finishedAt = none) ∧ (target = .pending ∨ target = .queued) := by
  unfold Store.Run.withState
  cases started : r.startedAt with
  | none | some instant => cases target <;> simp [RunState.isTerminal]

variable (updates : List (RunState × Time))

lemma foldl_fields (r : Run) : ∃ started finished,updates.foldl (fun r u => Store.Run.withState r u.1 u.2) r =
      { r with state := updates.foldl (fun _ u => u.1) r.state,startedAt := started,finishedAt := finished } := by
  induction updates generalizing r with
  | nil => exact ⟨r.startedAt,r.finishedAt,rfl⟩
  | cons u rest ih =>
    obtain ⟨first,second,changed⟩ := withState_fields r u.1 u.2
    obtain ⟨started,finished,result⟩ := ih (Store.Run.withState r u.1 u.2)
    refine ⟨started,finished,?_⟩
    rw [foldl_cons,result,changed]
    rfl

lemma foldl_unstamped (r : Run) :
    ((updates.foldl (fun r u => Store.Run.withState r u.1 u.2) r).startedAt = none ∧
      (updates.foldl (fun r u => Store.Run.withState r u.1 u.2) r).finishedAt = none) ↔
      (r.startedAt = none ∧ r.finishedAt = none) ∧ ∀ u ∈ updates,u.1 = .pending ∨ u.1 = .queued := by
  induction updates generalizing r with
  | nil => simp
  | cons u rest ih =>
    rw [foldl_cons,ih,withState_unstamped,forall_mem_cons,and_assoc]

section
variable (e : CreatedRun)
include e

lemma storableRun_iff : scanRun driver (e.row driver) = e.stored ↔ StorableRun driver e := by
  have unstamped := foldl_unstamped e.updates e.run
  obtain ⟨started,finished,result⟩ := foldl_fields e.updates e.run
  obtain ⟨⟨id,ns,workflow,state,input,steps,createdAt,startedAt,finishedAt,error,attempt,labels,parentRunID⟩,updates⟩ := e
  obtain ⟨wns,wname,wversion⟩ := workflow
  rw [result] at unstamped
  rw [CreatedRun.stored,result]
  simp only [scanRun,CreatedRun.row,CreatedRun.state,runRow,Run.mk.injEq,WorkflowID.mk.injEq,true_and,and_true,
    Option.getD_some] at unstamped ⊢
  constructor
  · rintro ⟨workflow,kept,survives,first,second,count,pairs,parent⟩
    obtain ⟨⟨begun,ended⟩,waiting⟩ := unstamped.mp ⟨first.symm,second.symm⟩
    exact ⟨kept,survives,workflow.symm,count.symm,pairs.symm,parent.symm,begun,ended,waiting⟩
  · intro storable
    obtain ⟨first,second⟩ := unstamped.mpr ⟨⟨storable.startedAt,storable.finishedAt⟩,storable.waiting⟩
    exact ⟨storable.workflow.symm,storable.input,storable.steps,first.symm,second.symm,storable.attempt.symm,
      storable.labels.symm,storable.parentRunID.symm⟩

lemma stored_key : e.stored.key = e.run.key := by
  obtain ⟨started,finished,result⟩ := foldl_fields e.updates e.run
  rw [CreatedRun.stored,result]
  rfl

lemma update_run (ns : Namespace) (id : String) (target : RunState) (stamp : Time) :
    (e.update ns id target stamp).run = e.run := by
  unfold CreatedRun.update
  split_ifs <;> rfl

lemma update_other (target : RunState) (stamp : Time)
    (other : ¬ (e.run.ns = ns ∧ e.run.id = id)) : e.update ns id target stamp = e :=
  if_neg other

lemma update_stored (target : RunState) (stamp : Time) :
    (e.update e.run.ns e.run.id target stamp).stored = Store.Run.withState e.stored target stamp := by
  simp [CreatedRun.update,CreatedRun.stored]

lemma update_row (ns : Namespace) (id : String) (target : RunState) (stamp : Time) :
    (e.update ns id target stamp).row driver =
      if (e.row driver).ns = ns ∧ (e.row driver).id = id then { e.row driver with state := target } else e.row driver := by
  have sameNs : (e.row driver).ns = e.run.ns := rfl
  have sameID : (e.row driver).id = e.run.id := rfl
  rw [sameNs,sameID]
  unfold CreatedRun.update
  split_ifs
  · simp [CreatedRun.row,CreatedRun.state]
  · rfl

end

lemma injOn_snoc {α : Type} {key : α → String} {entries : List α} {new : α}
    (apart : ∀ e ∈ entries,∀ o ∈ entries,key e = key o → e = o) (free : ∀ e ∈ entries,key e ≠ key new) :
    ∀ e ∈ entries ++ [new],∀ o ∈ entries ++ [new],key e = key o → e = o := by
  intro e first o second same
  rcases mem_append.mp first with old | added
  · rcases mem_append.mp second with known | last
    · exact apart e old o known same
    · rw [mem_singleton.mp last] at same
      exact absurd same (free e old)
  · rcases mem_append.mp second with known | last
    · rw [mem_singleton.mp added] at same
      exact absurd same.symm (free o known)
    · rw [mem_singleton.mp added,mem_singleton.mp last]

/-- Both stores hold what the ledger says was created, each entry under a key of its own. -/
structure Linked (s : Stores Json) (l : Ledger) : Prop where
  definitions : ∀ d, d ∈ s.memory.definitions.rows ↔ ∃ e ∈ l.definitions, e.definition = d
  definitionRows : ∀ row, row ∈ s.database.definitions.rows ↔
    ∃ e ∈ l.definitions, definitionRow driver e.instant e.definition = row
  definitionKeys : ∀ e ∈ l.definitions, ∀ o ∈ l.definitions, e.definition.key = o.definition.key → e = o
  runs : ∀ r, r ∈ s.memory.runs.rows ↔ ∃ e ∈ l.runs, e.stored = r
  runRows : ∀ row, row ∈ s.database.runs.rows ↔ ∃ e ∈ l.runs, e.row driver = row
  runKeys : ∀ e ∈ l.runs, ∀ o ∈ l.runs, e.run.key = o.run.key → e = o

namespace Linked

variable {driver} {s : Stores Json} {l : Ledger} (linked : Linked driver s l)

variable {e : CreatedDefinition} {k name : String} {r : Run} {target : RunState} {stamp : Time}

include linked

lemma definition_found (member : e ∈ l.definitions) :
    s.memory.definitions.lookup e.definition.key = some e.definition :=
  Table.lookup_listed linked.definitions member

lemma definition_absent (absent : ∀ e ∈ l.definitions,e.definition.key ≠ k) :
    s.memory.definitions.lookup k = none :=
  Table.lookup_unlisted linked.definitions absent

lemma run_found {e : CreatedRun} (member : e ∈ l.runs) : s.memory.runs.lookup e.run.key = some e.stored := by
  rw [← stored_key e]
  exact Table.lookup_listed linked.runs member

lemma run_absent (absent : ∀ e ∈ l.runs,e.run.key ≠ k) : s.memory.runs.lookup k = none := by
  apply Table.lookup_unlisted linked.runs
  intro e member
  rw [stored_key]
  exact absent e member

lemma runRow_found {e : CreatedRun} (member : e ∈ l.runs) :
    s.database.runs.lookup (e.run.ns,e.run.id) = some (e.row driver) :=
  Table.lookup_listed linked.runRows member

lemma runRow_absent (absent : ∀ e ∈ l.runs,¬ (e.run.ns = ns ∧ e.run.id = id)) :
    s.database.runs.lookup (ns,id) = none := by
  apply Table.lookup_unlisted linked.runRows
  intro e member filed
  exact absent e member ⟨congrArg Prod.fst filed,congrArg Prod.snd filed⟩

lemma newest_unique {o : CreatedDefinition} (first : e ∈ l.definitions) (second : o ∈ l.definitions)
    (ns : o.definition.id.ns = e.definition.id.ns) (name : o.definition.id.name = e.definition.id.name)
    (newest : l.Newest e) (again : l.Newest o) : o = e := by
  have version := le_antisymm (newest o second ns name) (again e first ns.symm name.symm)
  apply linked.definitionKeys o second e first
  rw [WorkflowDefinition.key,WorkflowDefinition.key,WorkflowID.key,WorkflowID.key,ns,name,version]

lemma database_named (member : e ∈ l.definitions) (newest : l.Newest e) :
    getDefinitionByName driver s.database e.definition.id.ns e.definition.id.name =
      .ok (scanDefinition driver (definitionRow driver e.instant e.definition)) := by
  unfold getDefinitionByName
  have stored := (linked.definitionRows _).mpr ⟨e,member,rfl⟩
  cases found : Relation.selectLast s.database.definitions
    (fun row => row.ns = e.definition.id.ns ∧ row.name = e.definition.id.name) DefinitionRow.version with
  | none =>
    have absent := (Relation.selectLast_eq_none _ _ _).mp found _ stored
    simp [definitionRow] at absent
  | some row =>
    obtain ⟨inside,chosen,latest⟩ := Relation.selectLast_some _ _ _ row found
    obtain ⟨o,known,rfl⟩ := (linked.definitionRows row).mp inside
    simp only [decide_eq_true_eq] at chosen latest
    have again : l.Newest o := by
      intro p created ns name
      exact latest _ ((linked.definitionRows _).mpr ⟨p,created,rfl⟩) ⟨ns.trans chosen.1,name.trans chosen.2⟩
    rw [linked.newest_unique member known chosen.1 chosen.2 newest again]

lemma database_unnamed (absent : ∀ e ∈ l.definitions,¬ (e.definition.id.ns = ns ∧ e.definition.id.name = name)) :
    getDefinitionByName driver s.database ns name = .error (.of .notFound) := by
  unfold getDefinitionByName
  have none : Relation.selectLast s.database.definitions (fun row => row.ns = ns ∧ row.name = name)
      DefinitionRow.version = none := by
    rw [Relation.selectLast_eq_none]
    intro row stored
    obtain ⟨e,member,rfl⟩ := (linked.definitionRows row).mp stored
    exact decide_eq_false (absent e member)
  rw [none]

variable (order : List String) (c : Call)

lemma memory_named (member : e ∈ l.definitions) (newest : l.Newest e) :
    s.memory.getDefinitionByName order e.definition.id.ns e.definition.id.name = .ok e.definition := by
  apply Store.getDefinitionByName_newest
  · exact linked.definition_found member
  · intro d stored ns name
    obtain ⟨o,known,rfl⟩ := (linked.definitions d).mp stored
    exact newest o known ns name

lemma memory_unnamed (absent : ∀ e ∈ l.definitions,¬ (e.definition.id.ns = ns ∧ e.definition.id.name = name)) :
    s.memory.getDefinitionByName order ns name = .error (.of .notFound) := by
  cases result : s.memory.getDefinitionByName order ns name with
  | error e => rw [(Store.getDefinitionByName_error _ _ _ _ _ result).1]
  | ok d =>
    obtain ⟨stored,named⟩ := Store.getDefinitionByName_ok _ _ _ _ _ result
    obtain ⟨e,member,rfl⟩ := (linked.definitions d).mp (s.memory.definitions.lookup_mem stored)
    exact absurd named (absent e member)

lemma exists_newest (member : e ∈ l.definitions) :
    ∃ o ∈ l.definitions,o.definition.id.ns = e.definition.id.ns ∧ o.definition.id.name = e.definition.id.name ∧
      l.Newest o := by
  cases result : s.memory.getDefinitionByName [] e.definition.id.ns e.definition.id.name with
  | error err =>
    have absent := (Store.getDefinitionByName_error _ _ _ _ _ result).2
    exact absurd ⟨rfl,rfl⟩ (absent e.definition ((linked.definitions _).mpr ⟨e,member,rfl⟩))
  | ok d =>
    obtain ⟨stored,ns,name⟩ := Store.getDefinitionByName_ok _ _ _ _ _ result
    obtain ⟨o,known,rfl⟩ := (linked.definitions d).mp (s.memory.definitions.lookup_mem stored)
    refine ⟨o,known,ns,name,?_⟩
    intro p created sameNs sameName
    exact Store.getDefinitionByName_latest _ _ _ _ _ _ result ((linked.definitions _).mpr ⟨p,created,rfl⟩)
      ⟨sameNs.trans ns,sameName.trans name⟩

lemma agree_getDefinitionByName (ns : Namespace) (name : String)
    (asks : c.request = .getDefinitionByName ns name) : Agree driver s c ↔ Harmless driver l c := by
  unfold Agree Harmless memstore pgstore
  rw [asks]
  dsimp only
  by_cases created : ∃ e ∈ l.definitions,e.definition.id.ns = ns ∧ e.definition.id.name = name
  · obtain ⟨first,member,rfl,rfl⟩ := created
    obtain ⟨e,known,sameNs,sameName,newest⟩ := linked.exists_newest member
    rw [← sameNs,← sameName,linked.memory_named c.order known newest,linked.database_named known newest]
    simp only [answer,Answer.definition.injEq]
    constructor
    · intro same o other ns name again
      rw [linked.newest_unique known other ns name newest again]
      exact (storable_iff driver e).mp same.symm
    · intro harmless
      exact ((storable_iff driver e).mpr (harmless e known rfl rfl newest)).symm
  · have absent : ∀ e ∈ l.definitions,¬ (e.definition.id.ns = ns ∧ e.definition.id.name = name) := by
      intro e member named
      exact created ⟨e,member,named⟩
    rw [linked.memory_unnamed c.order absent,linked.database_unnamed absent]
    constructor
    · intro _ e member ns name
      exact absurd ⟨ns,name⟩ (absent e member)
    · exact fun _ => rfl

lemma agree_getDefinition (id : WorkflowID) (asks : c.request = .getDefinition id) :
    Agree driver s c ↔ Harmless driver l c := by
  unfold Agree Harmless memstore pgstore
  rw [asks]
  dsimp only
  unfold Store.getDefinition Pgstore.getDefinition
  by_cases created : ∃ e ∈ l.definitions,e.definition.id.ns = id.ns ∧ e.definition.id.name = id.name
  · obtain ⟨first,member,ns,name⟩ := created
    obtain ⟨e,known,sameNs,sameName,newest⟩ := linked.exists_newest member
    have found : getDefinitionByName driver s.database id.ns id.name =
        .ok (scanDefinition driver (definitionRow driver e.instant e.definition)) := by
      rw [← ns,← name,← sameNs,← sameName]
      exact linked.database_named known newest
    rw [found]
    constructor
    · intro same
      right
      cases stored : s.memory.definitions.lookup id.key with
      | none =>
        rw [stored] at same
        cases same
      | some d =>
        rw [stored] at same
        simp only [answer,Answer.definition.injEq] at same
        -- The two texts have one key, so the definition in memory is the newest one itself.
        have key : e.definition.key = id.key := by
          have sameID : e.definition.id = d.id := by rw [same]; rfl
          rw [WorkflowDefinition.key,sameID]
          exact s.memory.definitions.lookup_key stored
        have version := ((Keys.defKey_eq_iff _ _ _ _ _ _).mp key).2
        have here : e.definition.id = id := by
          have ns' := sameNs.trans ns
          have name' := sameName.trans name
          cases h : e.definition.id
          cases id
          simp_all
        have itself : d = e.definition := by
          have again := linked.definition_found known
          rw [key,stored] at again
          exact Option.some.inj again
        refine ⟨e,known,here,newest,(storable_iff driver e).mp ?_⟩
        rw [← same,itself]
    · rintro (absent | ⟨o,other,rfl,again,storable⟩)
      · exact absurd ⟨ns,name⟩ (absent first member).2
      · have one := linked.newest_unique known other (sameNs.trans ns).symm (sameName.trans name).symm newest again
        subst one
        have here := linked.definition_found other
        rw [WorkflowDefinition.key] at here
        rw [here,(storable_iff driver o).mpr storable]
  · rw [linked.database_unnamed (fun e member named => created ⟨e,member,named⟩)]
    constructor
    · intro same
      left
      intro e member
      refine ⟨fun key => ?_,fun named => created ⟨e,member,named⟩⟩
      have found := linked.definition_found member
      rw [key] at found
      rw [found] at same
      cases same
    · rintro (nowhere | ⟨o,other,rfl,_⟩)
      · rw [linked.definition_absent (fun e member => (nowhere e member).1)]
      · exact absurd ⟨o,other,rfl,rfl⟩ created

lemma memory_creates (free : ∀ e ∈ l.definitions,e.definition.key ≠ d.key) :
    s.memory.createDefinition d = .ok { s.memory with definitions := s.memory.definitions.insert d } := by
  unfold Store.createDefinition
  rw [linked.definition_absent free]

lemma database_creates (free : ∀ e ∈ l.definitions,e.definition.key ≠ d.key) (now : Time) :
    createDefinition driver s.database now d =
      { s.database with definitions := s.database.definitions.insert (definitionRow driver now d) } := by
  have absent :=
    Table.lookup_unlisted linked.definitionRows (fun e member => definitionRow_free driver (free e member) e.instant now)
  unfold createDefinition Relation.upsert
  dsimp only
  rw [absent]

lemma agree_createDefinition (d : WorkflowDefinition) (asks : c.request = .createDefinition d) :
    Agree driver s c ↔ Harmless driver l c := by
  unfold Agree Harmless memstore pgstore
  rw [asks]
  dsimp only
  unfold Store.createDefinition
  constructor
  · intro same e member key
    have found := linked.definition_found member
    rw [key] at found
    rw [found] at same
    cases same
  · intro free
    rw [linked.definition_absent free]
    rfl

lemma keeps_createDefinition (d : WorkflowDefinition) (asks : c.request = .createDefinition d)
    (free : ∀ e ∈ l.definitions,e.definition.key ≠ d.key) : Linked driver (perform driver s c) (l.record c) := by
  simp only [perform,memstore,pgstore,Ledger.record,asks,linked.memory_creates free,linked.database_creates free,settle]
  refine ⟨?_,?_,?_,linked.runs,linked.runRows,linked.runKeys⟩
  · exact Table.insert_listed linked.definitions ⟨d,c.now⟩ free
  · exact Table.insert_listed linked.definitionRows ⟨d,c.now⟩
      (fun e member => definitionRow_free driver (free e member) e.instant c.now)
  · exact injOn_snoc linked.definitionKeys free

section
variable (free : ∀ e ∈ l.runs, e.run.key ≠ r.key)
include free

lemma memory_creates_run : s.memory.createRun r = .ok { s.memory with runs := s.memory.runs.insert r } := by
  unfold Store.createRun
  rw [linked.run_absent free]

lemma runRow_free : s.database.runs.lookup (r.ns,r.id) = none := by
  apply linked.runRow_absent
  rintro e member ⟨ns,id⟩
  apply free e member
  rw [Run.key,Run.key,ns,id]

lemma database_creates_run :
    createRun driver s.database r = .ok { s.database with runs := s.database.runs.insert (runRow driver r) } := by
  have row : s.database.runs.lookup (runRow driver r).key = none := linked.runRow_free free
  unfold createRun Relation.insert
  rw [row]

end

lemma agree_createRun (r : Run) (asks : c.request = .createRun r) : Agree driver s c ↔ Harmless driver l c := by
  unfold Agree Harmless memstore pgstore
  rw [asks]
  dsimp only
  unfold Store.createRun Pgstore.createRun Relation.insert
  constructor
  · intro same e member key
    have found := linked.run_found member
    rw [key] at found
    rw [found] at same
    cases row : s.database.runs.lookup (runRow driver r).key with
    | none | some old =>
      rw [row] at same
      cases same
  · intro free
    have row : s.database.runs.lookup (runRow driver r).key = none := linked.runRow_free free
    rw [linked.run_absent free,row]
    rfl

lemma keeps_createRun (r : Run) (asks : c.request = .createRun r)
    (free : ∀ e ∈ l.runs,e.run.key ≠ r.key) : Linked driver (perform driver s c) (l.record c) := by
  simp only [perform,memstore,pgstore,Ledger.record,asks,linked.memory_creates_run free,linked.database_creates_run free,
    settle]
  refine ⟨linked.definitions,linked.definitionRows,linked.definitionKeys,?_,?_,?_⟩
  · apply Table.insert_listed linked.runs { run := r }
    intro e member
    rw [stored_key]
    exact free e member
  · apply Table.insert_listed linked.runRows { run := r }
    intro e member filed
    exact free e member (congrArg (fun name : Namespace × String => runKey name.1 name.2) filed)
  · exact injOn_snoc linked.runKeys free

lemma agree_getRun (ns : Namespace) (id : String) (asks : c.request = .getRun ns id) :
    Agree driver s c ↔ Harmless driver l c := by
  unfold Agree Harmless memstore pgstore
  rw [asks]
  dsimp only
  unfold Store.getRun Pgstore.getRun
  by_cases created : ∃ e ∈ l.runs,e.run.ns = ns ∧ e.run.id = id
  · obtain ⟨e,member,rfl,rfl⟩ := created
    have found : s.memory.runs.lookup (runKey e.run.ns e.run.id) = some e.stored := linked.run_found member
    rw [found,linked.runRow_found member]
    simp only [answer,Answer.run.injEq]
    constructor
    · intro same
      exact .inr ⟨e,member,rfl,rfl,(storableRun_iff driver e).mp same.symm⟩
    · rintro (absent | ⟨o,other,sameNs,sameID,storable⟩)
      · exact absurd rfl (absent e member)
      · have one := linked.runKeys o other e member (by rw [Run.key,Run.key,sameNs,sameID])
        subst one
        exact ((storableRun_iff driver o).mpr storable).symm
  · rw [linked.runRow_absent (fun e member named => created ⟨e,member,named⟩)]
    constructor
    · intro same
      left
      intro e member key
      have found := linked.run_found member
      rw [key] at found
      rw [found] at same
      cases same
    · rintro (nowhere | ⟨o,other,sameNs,sameID,_⟩)
      · rw [linked.run_absent nowhere]
      · exact absurd ⟨o,other,sameNs,sameID⟩ created

lemma memory_updates {e : CreatedRun} (member : e ∈ l.runs) (target : RunState) (stamp : Time) :
    s.memory.updateRunState e.run.ns e.run.id target stamp =
      .ok { s.memory with runs := s.memory.runs.insert (Store.Run.withState e.stored target stamp) } := by
  have found : s.memory.runs.lookup (runKey e.run.ns e.run.id) = some e.stored := linked.run_found member
  unfold Store.updateRunState Store.updateRun
  rw [found]
  rfl

lemma database_updates {e : CreatedRun} (member : e ∈ l.runs) (target : RunState) (stamp : Time) :
    updateRunState s.database e.run.ns e.run.id target stamp = .ok { s.database with runs :=
      (Relation.update s.database.runs (fun row => row.ns = e.run.ns ∧ row.id = e.run.id)
        (fun row => { row with state := target }) (fun _ => rfl)).2 } := by
  have stored := (linked.runRows _).mpr ⟨e,member,rfl⟩
  exact updateRunState_found s.database target stamp stored rfl rfl

lemma memory_misses (absent : ∀ e ∈ l.runs,e.run.key ≠ runKey ns id)
    (target : RunState) (stamp : Time) : s.memory.updateRunState ns id target stamp = .error (.of .notFound) := by
  unfold Store.updateRunState Store.updateRun
  rw [linked.run_absent absent]

lemma database_misses (absent : ∀ e ∈ l.runs,¬ (e.run.ns = ns ∧ e.run.id = id))
    (target : RunState) (stamp : Time) : updateRunState s.database ns id target stamp = .error (.of .notFound) := by
  apply updateRunState_absent
  intro row stored
  obtain ⟨e,member,rfl⟩ := (linked.runRows row).mp stored
  exact absent e member

lemma agree_updateRunState (ns : Namespace) (id : String) (target : RunState) (stamp : Time)
    (asks : c.request = .updateRunState ns id target stamp) : Agree driver s c ↔ Harmless driver l c := by
  unfold Agree Harmless memstore pgstore
  rw [asks]
  dsimp only
  by_cases created : ∃ e ∈ l.runs,e.run.ns = ns ∧ e.run.id = id
  · obtain ⟨e,member,rfl,rfl⟩ := created
    rw [linked.memory_updates member,linked.database_updates member]
    constructor
    · exact fun _ => .inr ⟨e,member,rfl,rfl⟩
    · exact fun _ => rfl
  · rw [linked.database_misses (fun e member named => created ⟨e,member,named⟩)]
    constructor
    · intro same
      left
      intro e member key
      have found := linked.run_found member
      rw [key] at found
      unfold Store.updateRunState Store.updateRun at same
      rw [found] at same
      cases same
    · rintro (nowhere | ⟨o,other,sameNs,sameID⟩)
      · rw [linked.memory_misses nowhere]
        rfl
      · exact absurd ⟨o,other,sameNs,sameID⟩ created

lemma keeps_missing (asks : c.request = .updateRunState ns id target stamp) (nowhere : ∀ e ∈ l.runs,e.run.key ≠ runKey ns id) :
    Linked driver (perform driver s c) (l.record c) := by
  have absent : ∀ e ∈ l.runs,¬ (e.run.ns = ns ∧ e.run.id = id) := by
    rintro e member ⟨rfl,rfl⟩
    exact nowhere e member rfl
  have unchanged : l.runs.map (fun e => e.update ns id target stamp) = l.runs := by
    conv_rhs => rw [← map_id l.runs]
    apply map_congr_left
    intro e member
    exact update_other e target stamp (absent e member)
  simp only [perform,memstore,pgstore,Ledger.record,asks,linked.memory_misses nowhere,linked.database_misses absent,
    unchanged,settle]
  exact linked

lemma keeps_updating {e : CreatedRun} (member : e ∈ l.runs)
    (asks : c.request = .updateRunState e.run.ns e.run.id target stamp) :
    Linked driver (perform driver s c) (l.record c) := by
  have keys : (Store.Run.withState e.stored target stamp).key = e.run.key := by
    rw [← update_stored,stored_key,update_run]
  simp only [perform,memstore,pgstore,Ledger.record,asks,linked.memory_updates member,linked.database_updates member,
    settle]
  refine ⟨linked.definitions,linked.definitionRows,linked.definitionKeys,?_,?_,?_⟩
  · intro other
    simp only [Table.mem_insert,linked.runs,mem_map,exists_exists_and_eq_and,keys]
    constructor
    · rintro (rfl | ⟨⟨o,known,rfl⟩,apart⟩)
      · exact ⟨e,member,update_stored e target stamp⟩
      · refine ⟨o,known,?_⟩
        rw [update_other]
        rintro ⟨ns,id⟩
        apply apart
        rw [stored_key,Run.key,Run.key,ns,id]
    · rintro ⟨o,known,rfl⟩
      by_cases named : o.run.ns = e.run.ns ∧ o.run.id = e.run.id
      · left
        rw [← named.1,← named.2,update_stored]
        rw [linked.runKeys o known e member (by rw [Run.key,Run.key,named.1,named.2])]
      · right
        rw [update_other o target stamp named]
        refine ⟨⟨o,known,rfl⟩,?_⟩
        rw [stored_key]
        intro same
        apply named
        rw [linked.runKeys o known e member same]
        exact ⟨rfl,rfl⟩
  · intro row
    have filed : ∀ old : RunRow Json,RunRow.key { old with state := target } = old.key := fun _ => rfl
    apply (Relation.mem_update s.database.runs _ _ filed row).trans
    simp only [linked.runRows,mem_map,exists_exists_and_eq_and,update_row,decide_eq_true_eq,eq_comm (a := row)]
  · intro first known second other same
    obtain ⟨o,old,rfl⟩ := mem_map.mp known
    obtain ⟨p,older,rfl⟩ := mem_map.mp other
    rw [update_run,update_run] at same
    rw [linked.runKeys o old p older same]

lemma agree_iff : Agree driver s c ↔ Harmless driver l c := by
  cases asks : c.request with
  | createDefinition d => exact linked.agree_createDefinition c d asks
  | getDefinition id => exact linked.agree_getDefinition c id asks
  | getDefinitionByName ns name => exact linked.agree_getDefinitionByName c ns name asks
  | createRun r => exact linked.agree_createRun c r asks
  | getRun ns id => exact linked.agree_getRun c ns id asks
  | updateRunState ns id target stamp => exact linked.agree_updateRunState c ns id target stamp asks

lemma keeps (harmless : Harmless driver l c) : Linked driver (perform driver s c) (l.record c) := by
  unfold Harmless at harmless
  cases asks : c.request with
  | createDefinition d =>
    rw [asks] at harmless
    exact linked.keeps_createDefinition c d asks harmless
  | createRun r =>
    rw [asks] at harmless
    exact linked.keeps_createRun c r asks harmless
  | updateRunState ns id target stamp =>
    rw [asks] at harmless
    rcases harmless with nowhere | ⟨e,member,rfl,rfl⟩
    · exact linked.keeps_missing c asks nowhere
    · exact linked.keeps_updating c member asks
  | getDefinition id | getDefinitionByName ns name | getRun ns id =>
    simp only [perform,memstore,pgstore,Ledger.record,asks]
    exact linked

end Linked

lemma linked_new : Linked driver .new {} := by
  constructor <;> simp [Stores.new,Store.new,Db.new,Table.empty]

/-- The two stores answer a sequence of calls alike exactly if every call of it is
harmless at its point of the sequence. -/
theorem interchangeable_iff (calls : List Call) :
    Along (perform driver) (Agree driver) .new calls ↔ Along Ledger.record (Harmless driver) {} calls := by
  apply Along.matched (R := Linked driver)
  · intro s l c linked harmless
    exact linked.keeps c harmless
  · intro s l c linked
    exact linked.agree_iff c
  · exact linked_new driver

/-- The documents of a driver that loses nothing: the values themselves. -/
inductive Document
  | definitions (steps : List StepDefinition)
  | steps (steps : List StepRun)
  | input (input : RunInput)

def faithful : Driver Document where
  marshalDefinitions := .definitions
  unmarshalDefinitions
    | .definitions steps => steps
    | .steps _ | .input _ => []
  marshalSteps := .steps
  unmarshalSteps
    | .steps steps => steps
    | .definitions _ | .input _ => []
  marshalInput := .input
  unmarshalInput
    | .input input => input
    | .definitions _ | .steps _ => ⟨⟨"","",0⟩,[]⟩
  duplicateKey := "duplicate key value violates unique constraint"

def definitionA : WorkflowDefinition := { id := ⟨"ns","flow",1⟩, steps := [{ id := "a", handler := "h" }] }

def runA : Run where
  id := "r1"
  ns := "ns"
  workflow := ⟨"","flow",1⟩
  state := .pending
  input := { workflow := ⟨"ns","flow",1⟩ }
  steps := []
  createdAt := 0

example :
    Along (perform faithful) (Agree faithful) .new
      [⟨.createDefinition definitionA,0,[]⟩,⟨.getDefinition ⟨"ns","flow",1⟩,0,[]⟩,⟨.createRun runA,0,[]⟩,
        ⟨.updateRunState "ns" "r1" .queued 5,0,[]⟩,⟨.getRun "ns" "r1",0,[]⟩] := by
  decide

theorem not_interchangeable :
    ¬ Along (perform faithful) (Agree faithful) .new
      [⟨.createDefinition definitionA,0,[]⟩,⟨.createDefinition definitionA,0,[]⟩] ∧
    ¬ Along (perform faithful) (Agree faithful) .new
      [⟨.createDefinition definitionA,0,[]⟩,⟨.getDefinition ⟨"ns","flow",2⟩,0,[]⟩] ∧
    ¬ Along (perform faithful) (Agree faithful) .new
      [⟨.createRun runA,0,[]⟩,⟨.createRun runA,0,[]⟩] ∧
    ¬ Along (perform faithful) (Agree faithful) .new
      [⟨.createRun { runA with workflow := ⟨"ns","flow",1⟩ },0,[]⟩,⟨.getRun "ns" "r1",0,[]⟩] ∧
    ¬ Along (perform faithful) (Agree faithful) .new
      [⟨.createRun runA,0,[]⟩,⟨.updateRunState "ns" "r1" .running 5,0,[]⟩,⟨.getRun "ns" "r1",0,[]⟩] := by
  decide

end Tempest.Interchange
