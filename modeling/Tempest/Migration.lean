import Tempest.Lib.Relation
import Tempest.Lib.Interaction

/-! The migrations of `internal/migration`. The executor is a database with the table of the
applied versions; each of its calls may fail without effect, as the outcomes of the call say.
Running a migration and recording it are two statements. The log has the `Up` and `Down`
statements that were executed successfully, the latest first. -/
open List
namespace Tempest.Migrations
open Filing Interaction

structure Migration where
  version : Int
  name : String
  up : String
  down : String
  checksum : String
  deriving DecidableEq

inductive Err
  | errEmptyMigrationName
  | errEmptyUpSQL
  | errDuplicateVersion (version : Int)
  | errNonMonotonicVersion (version last : Int)
  | acquireLock
  | ensureTable
  | loadApplied
  | errChecksumMismatch (version : Int) (name expected got : String)
  | apply (version : Int) (name : String)
  | record (version : Int) (name : String)
  | notRegistered (version : Int)
  | noDown (version : Int) (name : String)
  | rollback (version : Int) (name : String)
  | deleteRecord (version : Int) (name : String)
  deriving DecidableEq

/-- The versions are strictly increasing. -/
structure Migrator where
  migrations : List Migration
  increasing : migrations.Pairwise (fun a b => a.version < b.version)

structure Row where
  version : Int
  name : String
  checksum : String
  deriving DecidableEq

/-- Which calls of the executor succeed, during one call of the migrator. Each statement is
executed at most once for a version. -/
structure Outcomes where
  acquireLock : Bool
  ensureTable : Bool
  load : Bool
  up : Int → Bool
  insert : Int → Bool
  down : Int → Bool
  delete : Int → Bool

inductive Dir
  | up
  | down
  deriving DecidableEq

structure World where
  table : Table Row.version
  log : List (Dir × Int)

variable (computeChecksum : String → String)

namespace Migrator

lemma below_last {migrations : List Migration} (increasing : migrations.Pairwise (fun a b => a.version < b.version))
    {bound : Int} (last : ∀ mig ∈ migrations.getLast?,mig.version < bound) : ∀ mig ∈ migrations,mig.version < bound := by
  intro mig member
  obtain rfl | ⟨front,final,rfl⟩ := eq_nil_or_concat migrations
  · cases member
  · have final_ := last final (by simp)
    rw [concat_eq_append] at member increasing
    obtain before | here := mem_append.mp member
    · exact lt_trans ((pairwise_append.mp increasing).2.2 mig before final (by simp)) final_
    · rw [mem_singleton.mp here]
      exact final_

def add (m : Migrator) (mig : Migration) (later : ∀ last ∈ m.migrations.getLast?,last.version < mig.version) : Migrator where
  migrations := m.migrations ++ [mig]
  increasing := by
    refine List.pairwise_append.mpr ⟨m.increasing,List.pairwise_singleton _ _,fun old member new here => ?_⟩
    rw [List.mem_singleton.mp here]
    exact below_last m.increasing later old member

def registerOne (m : Migrator) (mig : Migration) : Except Err Migrator :=
  if mig.name = "" then .error .errEmptyMigrationName
  else if mig.up = "" then .error .errEmptyUpSQL
  else
    let mig := { mig with checksum := if mig.checksum = "" then computeChecksum mig.up else mig.checksum }
    match found : m.migrations.getLast? with
    | none => .ok (m.add mig (by rw [found]; nofun))
    | some last =>
      if same : mig.version = last.version then .error (.errDuplicateVersion mig.version)
      else if less : mig.version < last.version then .error (.errNonMonotonicVersion mig.version last.version)
      else
        .ok (m.add mig (by
          rw [found]
          rintro _ ⟨⟩
          omega))

def register (m : Migrator) : List Migration → Option Err × Migrator
  | [] => (none,m)
  | mig :: rest =>
    match m.registerOne computeChecksum mig with
    | .error err => (some err,m)
    | .ok m => m.register rest

end Migrator

def expected (mig : Migration) : String := if mig.checksum = "" then computeChecksum mig.up else mig.checksum

def mismatch (applied : Table Row.version) (mig : Migration) : Option Err :=
  match applied.lookup mig.version with
  | none => none
  | some rec =>
    if rec.checksum ≠ "" ∧ rec.checksum ≠ expected computeChecksum mig then
      some (.errChecksumMismatch mig.version mig.name (expected computeChecksum mig) rec.checksum)
    else none

def applyPending (o : Outcomes) (applied : Table Row.version) : List Migration → World → Option Err × World
  | [],w => (none,w)
  | mig :: rest,w =>
    if (applied.lookup mig.version).isSome then applyPending o applied rest w
    else if !o.up mig.version then (some (.apply mig.version mig.name),w)
    else
      let w := { w with log := (.up,mig.version) :: w.log }
      match (if o.insert mig.version then Relation.insert w.table ⟨mig.version,mig.name,expected computeChecksum mig⟩ else none) with
      | none => (some (.record mig.version mig.name),w)
      | some table => applyPending o applied rest { w with table := table }

def migrate (m : Migrator) (o : Outcomes) (w : World) : Option Err × World :=
  if !o.acquireLock then (some .acquireLock,w)
  else if !o.ensureTable then (some .ensureTable,w)
  else if !o.load then (some .loadApplied,w)
  else
    match m.migrations.findSome? (mismatch computeChecksum w.table) with
    | some err => (some err,w)
    | none => applyPending computeChecksum o w.table m.migrations w

/-- One round of the outer sorting loop: the greatest element comes to the front by
exchanges. -/
def bringGreatest (x : Int) : List Int → Int × List Int
  | [] => (x,[])
  | y :: rest =>
    if x < y then ((bringGreatest y rest).1,x :: (bringGreatest y rest).2)
    else ((bringGreatest x rest).1,y :: (bringGreatest x rest).2)

def sortRounds : Nat → List Int → List Int
  | 0,xs => xs
  | _ + 1,[] => []
  | n + 1,x :: xs => (bringGreatest x xs).1 :: sortRounds n (bringGreatest x xs).2

def sortDescending (xs : List Int) : List Int := sortRounds xs.length xs

lemma bringGreatest_perm (x : Int) (xs : List Int) : ((bringGreatest x xs).1 :: (bringGreatest x xs).2).Perm (x :: xs) := by
  induction xs generalizing x with
  | nil => exact .refl _
  | cons y rest ih =>
    rw [bringGreatest]
    split_ifs
    · exact (List.Perm.swap _ _ _).trans ((ih y).cons x)
    · exact ((List.Perm.swap _ _ _).trans ((ih x).cons y)).trans (List.Perm.swap _ _ _)

lemma sortRounds_perm (n : Nat) (xs : List Int) : (sortRounds n xs).Perm xs := by
  induction n generalizing xs with
  | zero => exact .refl _
  | succ n ih =>
    cases xs with
    | nil => exact .refl _
    | cons x xs => exact ((ih _).cons _).trans (bringGreatest_perm x xs)

def undo (m : Migrator) (o : Outcomes) (steps : Int) : List Int → Int → World → (Int × Option Err) × World
  | [],rolledBack,w => ((rolledBack,none),w)
  | v :: rest,rolledBack,w =>
    if steps ≤ rolledBack then ((rolledBack,none),w)
    else
      match m.migrations.reverse.find? (fun mig => mig.version = v) with
      | none => ((rolledBack,some (.notRegistered v)),w)
      | some mig =>
        if mig.down = "" then ((rolledBack,some (.noDown mig.version mig.name)),w)
        else if !o.down mig.version then ((rolledBack,some (.rollback mig.version mig.name)),w)
        else
          let w := { w with log := (.down,mig.version) :: w.log }
          if !o.delete mig.version then ((rolledBack,some (.deleteRecord mig.version mig.name)),w)
          else undo m o steps rest (rolledBack + 1) { w with table := w.table.erase mig.version }

def rollback (m : Migrator) (o : Outcomes) (order : List Int) (steps : Int) (w : World) : (Int × Option Err) × World :=
  if steps ≤ 0 then ((0,none),w)
  else if !o.acquireLock then ((0,some .acquireLock),w)
  else if !o.ensureTable then ((0,some .ensureTable),w)
  else if !o.load then ((0,some .loadApplied),w)
  else undo m o steps (sortDescending ((w.table.range order).map Row.version)) 0 w

inductive Choice
  | migrate (o : Outcomes)
  | rollback (steps : Int) (order : List Int) (o : Outcomes)

def step (m : Migrator) (w : World) : Choice → World
  | .migrate o => (migrate computeChecksum m o w).2
  | .rollback steps order o => (rollback m o order steps w).2

def history (log : List (Dir × Int)) (v : Int) : List Dir :=
  log.filterMap (fun entry => if entry.2 = v then some entry.1 else none)

def Alternating (w : World) : Prop := ∀ v,(history w.log v).IsChain (· ≠ ·)

def Clean (m : Migrator) (w : World) : Choice → Prop
  | .migrate o => ∀ mig ∈ m.migrations,w.table.lookup mig.version = none → o.up mig.version = true → o.insert mig.version = true
  | .rollback _ _ o =>
    ∀ mig ∈ m.migrations,w.table.lookup mig.version ≠ none → o.down mig.version = true → o.delete mig.version = true

instance (m : Migrator) (w : World) (choice : Choice) : Decidable (Clean m w choice) := by
  cases choice <;> (unfold Clean; infer_instance)

/-- The table says which of the two statements of a version was the last. -/
structure Inv (w : World) : Prop where
  alternating : Alternating w
  applied : ∀ v,(history w.log v).head? = some .up → w.table.lookup v ≠ none
  undone : ∀ v,(history w.log v).head? = some .down → w.table.lookup v = none

lemma history_cons (d : Dir) (u : Int) (log : List (Dir × Int)) (v : Int) :
    history ((d,u) :: log) v = if u = v then d :: history log v else history log v := by
  rw [history,filterMap_cons]
  split_ifs <;> rfl

variable {w : World} {u : Int}

lemma Inv.extend (inv : Inv w) {d : Dir} {table : Table Row.version}
    (last : (history w.log u).head? ≠ some d) (others : ∀ v,v ≠ u → table.lookup v = w.table.lookup v)
    (here : table.lookup u = none ↔ d = .down) : Inv ⟨table,(d,u) :: w.log⟩ := by
  refine ⟨fun v => ?_,fun v => ?_,fun v => ?_⟩
  · rw [history_cons]
    split_ifs with same
    · subst same
      have chain := inv.alternating u
      cases earlier : history w.log u with
      | nil => exact .singleton d
      | cons e rest =>
        rw [earlier] at last chain
        refine .cons_cons (fun same => last ?_) chain
        rw [same]
        rfl
    · exact inv.alternating v
  · rw [history_cons]
    split_ifs with same
    · subst same
      intro up absent
      have down := here.mp absent
      rw [down] at up
      cases up
    · rw [others v (Ne.symm same)]
      exact inv.applied v
  · rw [history_cons]
    split_ifs with same
    · subst same
      intro down
      exact here.mpr (Option.some_inj.mp down)
    · rw [others v (Ne.symm same)]
      exact inv.undone v

lemma Inv.apply (inv : Inv w) {row : Row} (absent : w.table.lookup row.version = none) :
    Inv ⟨w.table.insert row,(.up,row.version) :: w.log⟩ := by
  refine inv.extend (fun up => inv.applied _ up absent) (fun v other => ?_) ?_
  · rw [Table.lookup_insert,if_neg other]
  · rw [Table.lookup_insert,if_pos rfl]
    exact iff_of_false nofun nofun

lemma Inv.undo (inv : Inv w) (present : w.table.lookup u ≠ none) : Inv ⟨w.table.erase u,(.down,u) :: w.log⟩ := by
  refine inv.extend (fun down => present (inv.undone _ down)) (fun v other => ?_) ?_
  · rw [Table.lookup_erase,if_neg other]
  · rw [Table.lookup_erase,if_pos rfl]
    exact iff_of_true rfl rfl

variable {computeChecksum} {o : Outcomes} {m : Migrator} {steps : Int}

lemma applyPending_inv {applied : Table Row.version} {migs : List Migration} (inv : Inv w)
    (distinct : migs.Pairwise (fun a b => a.version < b.version))
    (pending : ∀ mig ∈ migs,applied.lookup mig.version = none → w.table.lookup mig.version = none)
    (clean : ∀ mig ∈ migs,applied.lookup mig.version = none → o.up mig.version = true → o.insert mig.version = true) :
    Inv (applyPending computeChecksum o applied migs w).2 := by
  induction migs generalizing w with
  | nil => exact inv
  | cons mig rest ih =>
    have later := (pairwise_cons.mp distinct).1
    have tail := (pairwise_cons.mp distinct).2
    have cleanRest := fun other member => clean other (mem_cons_of_mem mig member)
    have pendingRest := fun other member => pending other (mem_cons_of_mem mig member)
    rw [applyPending]
    split_ifs with done failed recorded
    · exact ih inv tail pendingRest cleanRest
    · exact inv
    · have new : applied.lookup mig.version = none := by simpa using done
      have absent := pending mig mem_cons_self new
      dsimp only
      rw [Relation.insert,absent]
      refine ih (inv.apply absent) tail (fun other member pendingStill => ?_) cleanRest
      rw [Table.lookup_insert,if_neg (later other member).ne']
      exact pendingRest other member pendingStill
    · exact absurd (clean mig mem_cons_self (by simpa using done) (by simpa using failed)) recorded

lemma find_version {v : Int} {mig : Migration}
    (found : m.migrations.reverse.find? (fun mig => mig.version = v) = some mig) : mig ∈ m.migrations ∧ mig.version = v :=
  ⟨mem_reverse.mp (mem_of_find?_eq_some found),by simpa using find?_some found⟩

lemma undo_inv {versions : List Int} {rolledBack : Int}
    (inv : Inv w) (distinct : versions.Nodup) (present : ∀ v ∈ versions,w.table.lookup v ≠ none)
    (clean : ∀ mig ∈ m.migrations,mig.version ∈ versions → o.down mig.version = true → o.delete mig.version = true) :
    Inv (undo m o steps versions rolledBack w).2 := by
  induction versions generalizing rolledBack w with
  | nil => exact inv
  | cons v rest ih =>
    obtain ⟨fresh,tail⟩ := nodup_cons.mp distinct
    rw [undo]
    split_ifs
    · exact inv
    · split
      · exact inv
      next mig found =>
        obtain ⟨member,rfl⟩ := find_version found
        split_ifs with noDown failed kept
        · exact inv
        · exact inv
        · have deleted := clean mig member mem_cons_self (by simpa using failed)
          simp [deleted] at kept
        · refine ih (inv.undo (present _ mem_cons_self)) tail (fun other later => ?_)
            (fun other registered later => clean other registered (mem_cons_of_mem _ later))
          have different : other ≠ mig.version := by
            rintro rfl
            exact fresh later
          rw [Table.lookup_erase,if_neg different]
          exact present other (mem_cons_of_mem _ later)

lemma migrate_inv (inv : Inv w) (clean : Clean m w (.migrate o)) : Inv (migrate computeChecksum m o w).2 := by
  rw [migrate]
  split_ifs
  · exact inv
  · exact inv
  · exact inv
  · split
    · exact inv
    · exact applyPending_inv inv m.increasing (fun _ _ absent => absent) clean

lemma rollback_inv {order : List Int} (inv : Inv w)
    (clean : Clean m w (.rollback steps order o)) : Inv (rollback m o order steps w).2 := by
  have versions : (sortDescending ((w.table.range order).map Row.version)).Perm (w.table.rows.map Row.version) :=
    (sortRounds_perm _ _).trans ((w.table.range_perm order).map Row.version)
  have present v (member : v ∈ sortDescending ((w.table.range order).map Row.version)) : w.table.lookup v ≠ none := by
    obtain ⟨row,stored,rfl⟩ := mem_map.mp (versions.mem_iff.mp member)
    rw [w.table.lookup_of_mem stored]
    nofun
  rw [rollback]
  split_ifs
  · exact inv
  · exact inv
  · exact inv
  · exact inv
  · exact undo_inv inv (versions.nodup_iff.mpr w.table.distinct) present
      (fun mig registered member => clean mig registered (present _ member))

/-- In every sequence of calls in which no statement that records a migration fails after its
`Up` or `Down` has succeeded, the successful `Up` and `Down` statements of each version
alternate, whatever is in the table at the start. -/
theorem alternating_of_clean (computeChecksum : String → String) (m : Migrator) (table : Table Row.version)
    (choices : List Choice) (clean : Along (step computeChecksum m) (Clean m) ⟨table,[]⟩ choices) :
    Throughout (step computeChecksum m) Alternating ⟨table,[]⟩ choices := by
  have start : Inv ⟨table,[]⟩ := ⟨fun _ => .nil,nofun,nofun⟩
  have kept : Throughout (step computeChecksum m) Inv ⟨table,[]⟩ choices := by
    refine Along.throughout (fun w choice inv clean => ?_) start clean
    cases choice with
    | migrate o => exact migrate_inv inv clean
    | rollback steps order o => exact rollback_inv inv clean
  exact kept.mono (fun _ inv => inv.alternating)

def allOk : Outcomes := ⟨true,true,true,fun _ => true,fun _ => true,fun _ => true,fun _ => true⟩

def one : Migrator := ⟨[⟨1,"a","up","down","sum"⟩],List.pairwise_singleton _ _⟩

/-- Applied, rolled back and applied again. -/
theorem applied_again :
    Throughout (step id one) Alternating ⟨Table.empty,[]⟩ [.migrate allOk,.rollback 1 [] allOk,.migrate allOk] :=
  alternating_of_clean id one Table.empty _ (by decide)

/-- The statement that records the migration fails, and the migration is executed again; so it
is with a rollback whose record is not deleted. -/
theorem executed_twice :
    ¬Throughout (step id one) Alternating ⟨Table.empty,[]⟩ [.migrate { allOk with insert := fun _ => false },.migrate allOk] ∧
    ¬Throughout (step id one) Alternating ⟨Table.empty,[]⟩
      [.migrate allOk,.rollback 1 [] { allOk with delete := fun _ => false },.rollback 1 [] allOk] := by
  refine ⟨fun throughout => ?_,fun throughout => ?_⟩
  all_goals
    have twice := throughout _ prefix_rfl 1
    revert twice
    decide

end Tempest.Migrations
