import Tempest.Memstore
import Tempest.Lib.Interaction

/-! Which runs and queue items `CompactRuns` removes. It selects the expired runs, but
deletes by their bare ids: a run goes if it has the id of a selected one in any
namespace, and a queue item goes if such an id stands between two slashes
anywhere in its key. -/
namespace Tempest.Retention
open Interaction Filing List

def Mentions (ids : List String) (item : QueueItem) : Prop := ∃ id ∈ ids, Text.contains item.key ("/" ++ id ++ "/") = true

instance (ids : List String) (item : QueueItem) : Decidable (Mentions ids item) := List.decidableBEx _ ids

lemma deleteRuns_store (s : Store) (ids : List String) :
    (s.deleteRuns ids).2 = { s with
      runs := s.runs.filter (fun r => r.id ∉ ids)
      queue := s.queue.filter (fun item => ¬ Mentions ids item) } := by
  induction ids generalizing s with
  | nil =>
    have runs : s.runs.filter (fun r => r.id ∉ ([])) = s.runs := Table.ext_rows (by simp [Table.filter])
    have queue : s.queue.filter (fun item => ¬ Mentions [] item) = s.queue :=
      Table.ext_rows (by simp [Table.filter,Mentions])
    rw [runs,queue]
    rfl
  | cons id rest ih =>
    unfold Store.deleteRuns
    rw [ih]
    simp only [Table.filter_filter]
    congr 2
    · funext r
      simp
    · funext item
      simp [Mentions]

lemma deleteRuns_count (s : Store) (ids : List String) :
    (s.deleteRuns ids).1 = (s.runs.rows.filter (fun r => r.id ∈ ids)).length := by
  induction ids generalizing s with
  | nil => simp [Store.deleteRuns]
  | cons id rest ih =>
    have parts := length_eq_length_filter_add (l := s.runs.rows.filter (fun r => r.id ∈ id :: rest)) (fun r => r.id = id)
    unfold Store.deleteRuns
    dsimp only
    rw [ih,parts,filter_filter,filter_filter,Table.filter,filter_filter]
    congr 2
    all_goals
      apply filter_congr
      intro r _
      by_cases same : r.id = id <;> simp [same]

def selected (s : Store) (order : List String) (before : Time) (limit : Int) : List String :=
  (s.listExpiredRuns order before limit).map Run.id

lemma compactRuns_store (s : Store) (order : List String) (before : Time) (limit : Int) :
    (s.compactRuns order before limit).2 = { s with
      runs := s.runs.filter (fun r => r.id ∉ selected s order before limit)
      queue := s.queue.filter (fun item => ¬ Mentions (selected s order before limit) item) } :=
  deleteRuns_store s (selected s order before limit)

lemma compactRuns_count (s : Store) (order : List String) (before : Time) (limit : Int) :
    (s.compactRuns order before limit).1 =
      (s.runs.rows.filter (fun r => r.id ∈ selected s order before limit)).length :=
  deleteRuns_count s (selected s order before limit)

/-- Between the two stores only expired runs have gone, at most `limit` many, nothing has
changed and no queue item of a run that is still there has gone. -/
structure OnlyExpired (s s' : Store) (before : Time) (limit : Int) : Prop where
  expired : ∀ r ∈ s.runs.rows, r ∉ s'.runs.rows → Store.Run.expired before r = true
  bounded : 0 < limit → ((s.runs.rows.filter (fun r => r ∉ s'.runs.rows)).length : Int) ≤ limit
  runs : ∀ r ∈ s'.runs.rows, r ∈ s.runs.rows
  queue : ∀ item ∈ s'.queue.rows, item ∈ s.queue.rows
  items : ∀ item ∈ s.queue.rows, ∀ r ∈ s'.runs.rows, r.ns = item.ns → r.id = item.runID → item ∈ s'.queue.rows

/-- A choice of expired runs, `limit` many of the oldest or all of them. Only runs that finished
at the same time leave more than one choice. -/
structure Selects (s : Store) (before : Time) (limit : Int) (chosen : List Run) : Prop where
  distinct : chosen.Nodup
  expired : ∀ r ∈ chosen, r ∈ s.runs.rows ∧ Store.Run.expired before r = true
  bounded : 0 < limit → (chosen.length : Int) ≤ limit
  all : limit ≤ 0 ∨ (chosen.length : Int) < limit → ∀ r ∈ s.runs.rows, Store.Run.expired before r = true → r ∈ chosen
  oldest : ∀ r ∈ chosen, ∀ o ∈ s.runs.rows, Store.Run.expired before o = true → o ∉ chosen →
    r.finishedAt.getD 0 ≤ o.finishedAt.getD 0

/-- No other run has the id of a chosen one, in whatever namespace, and no key of a queue item
of another run has such an id between two slashes. -/
structure Alone (s : Store) (chosen : List Run) : Prop where
  runs : ∀ o ∈ s.runs.rows, o ∉ chosen → ∀ r ∈ chosen, o.id ≠ r.id
  items : ∀ o ∈ s.runs.rows, o ∉ chosen → ∀ item ∈ s.queue.rows, o.ns = item.ns → o.id = item.runID →
    ∀ r ∈ chosen, Text.contains item.key ("/" ++ r.id ++ "/") = false

lemma listExpiredRuns_selects (s : Store) (order : List String) (before : Time) (limit : Int) :
    Selects s before limit (s.listExpiredRuns order before limit) := by
  let sooner : Run → Run → Prop := fun a b => a.finishedAt.getD 0 ≤ b.finishedAt.getD 0
  obtain ⟨sorted,sorting,ordered⟩ : ∃ sorted,sorted = ((s.runs.range order).filter (Store.Run.expired before)).insertionSort sooner ∧
      sorted.Pairwise sooner := by
    refine ⟨_,rfl,?_⟩
    have total : Std.Total sooner := ⟨fun a b => le_total _ _⟩
    have trans : IsTrans Run sooner := ⟨fun a b c => le_trans⟩
    exact pairwise_insertionSort sooner _
  have perm : sorted.Perm (s.runs.rows.filter (Store.Run.expired before)) := by
    rw [sorting]
    exact (perm_insertionSort _ _).trans ((s.runs.range_perm order).filter _)
  -- what is listed is the beginning of the sorted list
  obtain ⟨rest,split,cut,whole⟩ : ∃ rest,sorted = s.listExpiredRuns order before limit ++ rest ∧
      (0 < limit → ((s.listExpiredRuns order before limit).length : Int) ≤ limit) ∧
      (limit ≤ 0 ∨ ((s.listExpiredRuns order before limit).length : Int) < limit → rest = []) := by
    have listed : s.listExpiredRuns order before limit = Store.page limit 0 sorted := by rw [sorting]; rfl
    rw [listed,Store.page,if_neg (lt_irrefl 0)]
    split_ifs with short
    · refine ⟨sorted.drop limit.toNat,(take_append_drop _ _).symm,fun _ => ?_,fun few => ?_⟩
      all_goals
        rw [length_take] at *
        omega
    · exact ⟨[],(append_nil _).symm,fun _ => by omega,fun _ => rfl⟩
  have members : ∀ r,r ∈ sorted ↔ r ∈ s.runs.rows ∧ Store.Run.expired before r = true := fun r => by
    rw [perm.mem_iff,mem_filter]
  rw [split] at members ordered perm
  have distinct := perm.nodup_iff.mpr (s.runs.rows_nodup.filter _)
  refine ⟨(nodup_append'.mp distinct).1,fun r chosen => (members r).mp (mem_append_left _ chosen),cut,
    fun few r stored expired => ?_,fun r chosen o stored expired left => ?_⟩
  · have inside := (members r).mpr ⟨stored,expired⟩
    rwa [whole few,append_nil] at inside
  · have inside := (mem_append.mp ((members o).mpr ⟨stored,expired⟩)).resolve_left left
    exact (pairwise_append.mp ordered).2.2 r chosen o inside

lemma Selects.only_iff {s : Store} {before : Time} {limit : Int} {chosen : List Run} (selects : Selects s before limit chosen) :
    OnlyExpired s (s.deleteRuns (chosen.map Run.id)).2 before limit ↔ Alone s chosen := by
  rw [deleteRuns_store]
  set left := s.runs.filter (fun r => r.id ∉ chosen.map Run.id) with filtered
  have gone : ∀ r ∈ s.runs.rows,(r ∉ left.rows ↔ ∃ c ∈ chosen,c.id = r.id) := by
    intro r stored
    simp [filtered,Table.mem_filter,stored]
  constructor
  · rintro ⟨expired,bounded,-,-,items⟩
    have runs : ∀ o ∈ s.runs.rows,o ∉ chosen → ∀ r ∈ chosen,o.id ≠ r.id := by
      intro o stored other r member same
      have missing := (gone o stored).mpr ⟨r,member,same.symm⟩
      have old := expired o stored missing
      by_cases few : limit ≤ 0 ∨ (chosen.length : Int) < limit
      · exact other (selects.all few o stored old)
      · -- the run is one more than there may be
        have more : (o :: chosen) ⊆ s.runs.rows.filter (fun r => r ∉ left.rows) := by
          intro c inside
          rcases mem_cons.mp inside with rfl | inside
          · exact mem_filter.mpr ⟨stored,decide_eq_true missing⟩
          · have here := (selects.expired c inside).1
            exact mem_filter.mpr ⟨here,decide_eq_true ((gone c here).mpr ⟨c,inside,rfl⟩)⟩
        have count := (subperm_of_subset (nodup_cons.mpr ⟨other,selects.distinct⟩) more).length_le
        have most := bounded (by omega)
        dsimp only at most
        rw [length_cons] at count
        omega
    refine ⟨runs,fun o stored other item queued ns id r member => ?_⟩
    have stays : o ∈ left.rows := by
      by_contra missing
      obtain ⟨c,inside,same⟩ := (gone o stored).mp missing
      exact runs o stored other c inside same.symm
    have kept := ((Table.mem_filter _ _ _).mp (items item queued o stays ns id)).2
    rw [decide_eq_true_eq] at kept
    exact Bool.eq_false_iff.mpr fun mentioned => kept ⟨r.id,mem_map_of_mem member,mentioned⟩
  · rintro ⟨runs,items⟩
    have taken : ∀ r ∈ s.runs.rows,r ∉ left.rows → r ∈ chosen := by
      intro r stored missing
      obtain ⟨c,inside,same⟩ := (gone r stored).mp missing
      by_contra other
      exact runs r stored other c inside same.symm
    refine ⟨fun r stored missing => (selects.expired r (taken r stored missing)).2,fun positive => ?_,?_,?_,?_⟩
    · have fewer : s.runs.rows.filter (fun r => r ∉ left.rows) ⊆ chosen := by
        intro r member
        obtain ⟨stored,missing⟩ := mem_filter.mp member
        exact taken r stored (of_decide_eq_true missing)
      have count := (subperm_of_subset (s.runs.rows_nodup.filter _) fewer).length_le
      have most := selects.bounded positive
      dsimp only
      omega
    · exact fun r stored => ((Table.mem_filter _ _ _).mp stored).1
    · exact fun item queued => ((Table.mem_filter _ _ _).mp queued).1
    · intro item queued o stays ns id
      obtain ⟨stored,kept⟩ := (Table.mem_filter _ _ _).mp stays
      rw [decide_eq_true_eq] at kept
      refine (Table.mem_filter _ _ _).mpr ⟨queued,decide_eq_true ?_⟩
      rintro ⟨_,listed,mentioned⟩
      obtain ⟨r,member,rfl⟩ := mem_map.mp listed
      have other : o ∉ chosen := fun inside => kept (mem_map_of_mem inside)
      rw [items o stored other item queued ns id r member] at mentioned
      cases mentioned

/-- Compaction selects expired runs, the oldest and not more than the limit, and removes only
what expired exactly if these share no id and no key with the other runs. -/
theorem compacts_iff (s : Store) (order : List String) (before : Time) (limit : Int) :
    Selects s before limit (s.listExpiredRuns order before limit) ∧
      (OnlyExpired s (s.compactRuns order before limit).2 before limit ↔ Alone s (s.listExpiredRuns order before limit)) := by
  have selects := listExpiredRuns_selects s order before limit
  exact ⟨selects,selects.only_iff⟩

def finishedA : Run where
  id := "r1"
  ns := "a"
  workflow := ⟨"a","flow",1⟩
  state := .succeeded
  input := { workflow := ⟨"a","flow",1⟩ }
  steps := []
  createdAt := 0
  startedAt := some 1
  finishedAt := some 5

def runningB : Run := { finishedA with ns := "b", state := .running, finishedAt := none }

def twoTenants : Store :=
  { Store.new with runs := (Table.empty.insert finishedA).insert runningB, queue := Table.empty.insert ⟨"r1","b","s",0,0,0⟩ }

/-- The running run of the second namespace has the id of the expired one. -/
theorem running_run_deleted :
    runningB ∈ twoTenants.runs.rows ∧ runningB ∉ (twoTenants.compactRuns [] 10 1).2.runs.rows ∧
      ¬ OnlyExpired twoTenants (twoTenants.compactRuns [] 10 1).2 10 1 := by
  have stored : runningB ∈ twoTenants.runs.rows := by decide
  have missing : runningB ∉ (twoTenants.compactRuns [] 10 1).2.runs.rows := by decide
  refine ⟨stored,missing,?_⟩
  intro only
  have expired := only.expired runningB stored missing
  exact absurd expired (by decide)

/-- What `CreateRun` is called with: not terminal and without timestamps. -/
structure FreshRun where
  run : Run
  waiting : run.state.isTerminal = false
  unstarted : run.startedAt = none
  unfinished : run.finishedAt = none

inductive Op
  | createRun (r : FreshRun)
  | updateRunState (ns : Namespace) (id : String) (target : RunState) (stamp : Time)
  | updateStepState (ns : Namespace) (id : String) (step : StepRun)

variable (quote : String → String)

def step (s : Store) : Op → Store
  | .createRun r => s.settled (s.createRun r.run)
  | .updateRunState ns id target stamp => s.settled (s.updateRunState ns id target stamp)
  | .updateStepState ns id step => s.settled (s.updateStepState quote ns id step)

def Stamped (s : Store) : Prop := ∀ r ∈ s.runs.rows, r.state.isTerminal = true → r.finishedAt ≠ none

/-- Terminal runs are stamped, and late enough all of them, and no others, are listed and
deleted, if there is no limit. -/
structure Retained (s : Store) : Prop where
  stamped : Stamped s
  eventually : ∃ late, ∀ cutoff, late ≤ cutoff → ∀ order limit, limit ≤ 0 →
    (s.listExpiredRuns order cutoff limit).Perm (s.runs.rows.filter (fun r => r.state.isTerminal)) ∧
    (s.compactRuns order cutoff limit).1 = (s.runs.rows.filter (fun r => r.state.isTerminal)).length ∧
    (s.compactRuns order cutoff limit).2.runs = s.runs.filter (fun r => !r.state.isTerminal)

def Apart (s : Store) : Prop :=
  ∀ r ∈ s.runs.rows, r.state.isTerminal = true → ∀ o ∈ s.runs.rows, o.id = r.id → o.state.isTerminal = true

def Timely (s : Store) : Op → Prop
  | .updateRunState ns id target _ => target = .succeeded ∨ target = .failed →
    ∀ r, s.runs.lookup (runKey ns id) = some r → r.startedAt ≠ none ∨ r.finishedAt ≠ none
  | .createRun _ | .updateStepState .. => True

lemma exists_late (rows : List Run) : ∃ late : Time,∀ r ∈ rows,∀ t,r.finishedAt = some t → t < late := by
  induction rows with
  | nil => exact ⟨0,by simp⟩
  | cons r rest ih =>
    obtain ⟨late,after⟩ := ih
    refine ⟨max late (r.finishedAt.getD 0 + 1),?_⟩
    intro o member t finished
    rcases mem_cons.mp member with rfl | inside
    · apply lt_max_of_lt_right
      rw [finished]
      exact Int.lt_succ t
    · exact lt_max_of_lt_left (after o inside t finished)

variable {limit : Int} {s : Store} {cutoff : Time}

lemma listExpiredRuns_perm (s : Store) (order : List String) (cutoff : Time) (unlimited : limit ≤ 0) :
    (s.listExpiredRuns order cutoff limit).Perm (s.runs.rows.filter (Store.Run.expired cutoff)) := by
  have whole := not_lt.mpr unlimited
  unfold Store.listExpiredRuns Store.page
  simp only [lt_irrefl,if_false,whole,false_and]
  exact (perm_insertionSort _ _).trans ((s.runs.range_perm order).filter _)

lemma expired_iff (stamped : Stamped s)
    (late : ∀ r ∈ s.runs.rows,∀ t,r.finishedAt = some t → t < cutoff) {r : Run} (stored : r ∈ s.runs.rows) :
    Store.Run.expired cutoff r = r.state.isTerminal := by
  cases terminal : r.state.isTerminal with
  | false => simp [Store.Run.expired,terminal]
  | true =>
    obtain ⟨t,finished⟩ := Option.ne_none_iff_exists'.mp (stamped r stored terminal)
    simp [Store.Run.expired,terminal,finished,late r stored t finished]

lemma terminal_perm (stamped : Stamped s)
    (late : ∀ r ∈ s.runs.rows,∀ t,r.finishedAt = some t → t < cutoff) (order : List String)
    (unlimited : limit ≤ 0) :
    (s.listExpiredRuns order cutoff limit).Perm (s.runs.rows.filter (fun r => r.state.isTerminal)) := by
  have same :=
    filter_congr (fun r stored => expired_iff stamped late stored)
  rw [← same]
  exact listExpiredRuns_perm s order cutoff unlimited

lemma mem_selected {order : List String}
    (perm : (s.listExpiredRuns order cutoff limit).Perm (s.runs.rows.filter (fun r => r.state.isTerminal))) (id : String) :
    id ∈ selected s order cutoff limit ↔ ∃ r ∈ s.runs.rows,r.state.isTerminal = true ∧ r.id = id := by
  simp only [selected,mem_map,perm.mem_iff,mem_filter,and_assoc]

lemma retained_iff (s : Store) : Retained s ↔ Stamped s ∧ Apart s := by
  constructor
  · rintro ⟨stamped,late,holds⟩
    refine ⟨stamped,?_⟩
    intro r stored terminal o other same
    obtain ⟨listed,_,deleted⟩ := holds late le_rfl [] 0 le_rfl
    have chosen := (mem_selected listed o.id).mpr ⟨r,stored,terminal,same.symm⟩
    rw [compactRuns_store] at deleted
    by_contra waiting
    have kept : o ∈ (s.runs.filter (fun r => !r.state.isTerminal)).rows :=
      (Table.mem_filter _ _ _).mpr ⟨other,by simpa using waiting⟩
    rw [← deleted,Table.mem_filter,decide_eq_true_eq] at kept
    exact kept.2 chosen
  · rintro ⟨stamped,apart⟩
    obtain ⟨late,after⟩ := exists_late s.runs.rows
    refine ⟨stamped,late,?_⟩
    intro cutoff later order limit unlimited
    have listed := terminal_perm stamped (fun r stored t finished => (after r stored t finished).trans_le later) order unlimited
    have chosen : ∀ r ∈ s.runs.rows,decide (r.id ∈ selected s order cutoff limit) = r.state.isTerminal := by
      intro r stored
      rw [Bool.eq_iff_iff,decide_eq_true_eq,mem_selected listed]
      constructor
      · rintro ⟨o,other,terminal,same⟩
        exact apart o other terminal r stored same.symm
      · intro terminal
        exact ⟨r,stored,terminal,rfl⟩
    refine ⟨listed,?_,?_⟩
    · rw [compactRuns_count,filter_congr chosen]
    · rw [compactRuns_store]
      apply Table.ext_rows
      apply filter_congr
      intro r stored
      rw [decide_not,chosen r stored]

lemma withState_finished (r : Run) (target : RunState) (stamp : Time) (terminal : target.isTerminal = true) :
    (Store.Run.withState r target stamp).finishedAt ≠ none ↔
      (target = .succeeded ∨ target = .failed → r.startedAt ≠ none ∨ r.finishedAt ≠ none) := by
  unfold Store.Run.withState
  cases started : r.startedAt with
  | none | some instant => cases target <;> simp_all [RunState.isTerminal]

lemma Stamped.insert_iff (stamped : Stamped s) (r : Run) :
    Stamped { s with runs := s.runs.insert r } ↔ (r.state.isTerminal = true → r.finishedAt ≠ none) := by
  constructor
  · intro after
    exact after r ((Table.mem_insert _ _ _).mpr (.inl rfl))
  · intro fine o stored
    rcases (Table.mem_insert _ _ _).mp stored with rfl | ⟨old,_⟩
    · exact fine
    · exact stamped o old

lemma Stamped.step_iff (stamped : Stamped s) (op : Op) : Stamped (step quote s op) ↔ Timely s op := by
  cases op with
  | createRun r =>
    apply iff_of_true _ trivial
    simp only [step,Store.createRun]
    cases s.runs.lookup r.run.key with
    | some old => exact stamped
    | none =>
      apply (stamped.insert_iff r.run).mpr
      rw [r.waiting]
      intro terminal
      cases terminal
  | updateRunState ns id target stamp =>
    simp only [step,Timely,Store.updateRunState,Store.updateRun]
    cases found : s.runs.lookup (runKey ns id) with
    | none =>
      apply iff_of_true stamped
      intro _ r missing
      cases missing
    | some r =>
      apply (stamped.insert_iff _).trans
      rw [Store.withState_state]
      constructor
      · intro after ended o same
        cases same
        have terminal : target.isTerminal = true := by
          rcases ended with rfl | rfl <;> rfl
        exact (withState_finished r target stamp terminal).mp (after terminal) ended
      · intro timely terminal
        exact (withState_finished r target stamp terminal).mpr (fun ended => timely ended r rfl)
  | updateStepState ns id stepRun =>
    apply iff_of_true _ trivial
    simp only [step,Store.updateStepState]
    cases result : s.updateRun ns id _ with
    | error e => exact stamped
    | ok s' =>
      obtain ⟨r,r',found,changed,rfl⟩ := Store.updateRun_ok _ _ _ _ _ result
      apply (stamped.insert_iff r').mpr
      have old := stamped r (s.runs.lookup_mem found)
      split at changed
      · cases changed
        exact old
      · cases changed

/-- In every state of a history terminal runs are stamped and retention takes exactly
them, if and only if no unstarted run is made SUCCEEDED or FAILED and at no time a
terminal run has the id of one that is not. -/
theorem retained_throughout_iff (ops : List Op) :
    Throughout (step quote) Retained .new ops ↔
      Along (step quote) Timely .new ops ∧ Throughout (step quote) Apart .new ops := by
  have start : Stamped .new := by
    intro r stored
    cases stored
  have timely : Throughout (step quote) Stamped .new ops ↔ Along (step quote) Timely .new ops := by
    rw [throughout_iff_along start]
    apply Along.congr (P := Stamped) _ _ start
    · intro s op stamped allowed
      exact (stamped.step_iff quote op).mpr allowed
    · intro s op stamped
      exact stamped.step_iff quote op
  rw [← timely]
  unfold Throughout
  simp only [retained_iff]
  constructor
  · intro holds
    exact ⟨fun done early => (holds done early).1,fun done early => (holds done early).2⟩
  · rintro ⟨stamped,apart⟩ done early
    exact ⟨stamped done early,apart done early⟩

def queuedRun : FreshRun where
  run := { runningB with state := .queued, startedAt := none }
  waiting := rfl
  unstarted := rfl
  unfinished := rfl

/-- A run that ends without having been RUNNING gets `StartedAt` instead of `FinishedAt`. -/
theorem unstarted_run_unstamped :
    ¬ Throughout (step id) Retained .new [.createRun queuedRun,.updateRunState "b" "r1" .succeeded 5] := by
  intro holds
  have stamped := (holds _ prefix_rfl).stamped
  unfold Stamped at stamped
  revert stamped
  decide

end Tempest.Retention
