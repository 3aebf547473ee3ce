import Tempest.Calls

/-! Runs of definitions that nobody has checked. Whatever the steps of a definition
are, the engine enqueues a step only after everything it depends on, and of several
steps with one id it only ever changes the first. So a run that becomes SUCCEEDED
shows that its definition is arranged. -/
namespace Tempest.Arrangement
open Interaction Filing Progress Engine Dependency Workflow List

/-- The ids are distinct, and every step depends on steps of smaller rank. -/
structure Arranged (d : WorkflowDefinition) : Prop where
  distinct : (d.steps.map StepDefinition.id).Nodup
  known : ∀ sd ∈ d.steps, ∀ dep ∈ sd.dependsOn, dep ∈ d.steps.map StepDefinition.id
  acyclic : ∃ rank : String → Nat, ∀ sd ∈ d.steps, ∀ dep ∈ sd.dependsOn, rank dep < rank sd.id

lemma Arranged.order {d : WorkflowDefinition} (arranged : Arranged d) :
    ∃ order,Ordered (dependencies d) order ∧ order.Perm (d.steps.map StepDefinition.id) := by
  obtain ⟨rank,smaller⟩ := arranged.acyclic
  refine ordered_of_rank _ rank ?_
  intro x member dep depends
  obtain ⟨sd,inside,rfl⟩ := mem_map.mp member
  rw [dependencies_of_mem d arranged.distinct sd inside] at depends
  exact ⟨arranged.known sd inside dep depends,smaller sd inside dep depends⟩

lemma arranged_of_order {d : WorkflowDefinition} (distinct : (d.steps.map StepDefinition.id).Nodup)
    (order : List String) (ordered : Ordered (dependencies d) order)
    (members : ∀ x,x ∈ order ↔ x ∈ d.steps.map StepDefinition.id) : Arranged d := by
  have places : ∀ sd ∈ d.steps,∀ dep ∈ sd.dependsOn,dep ∈ order ∧ order.idxOf dep < order.idxOf sd.id := by
    intro sd inside dep depends
    rw [← dependencies_of_mem d distinct sd inside] at depends
    exact ordered.rank sd.id ((members _).mpr (mem_map.mpr ⟨sd,inside,rfl⟩)) dep depends
  refine ⟨distinct,?_,order.idxOf,?_⟩
  · intro sd inside dep depends
    exact (members dep).mp (places sd inside dep depends).1
  · intro sd inside dep depends
    exact (places sd inside dep depends).2

def Late : List String → List StepRun → Prop
  | _, [] => True
  | seen, s :: rest => (s.stepID ∈ seen → s.state = .pending) ∧ Late (s.stepID :: seen) rest

lemma late_of_pending (seen : List String) (steps : List StepRun) (pending : ∀ s ∈ steps,s.state = .pending) :
    Late seen steps := by
  induction steps generalizing seen with
  | nil => trivial
  | cons s rest ih =>
    exact ⟨fun _ => pending s (by simp),ih _ (fun t inside => pending t (mem_cons_of_mem _ inside))⟩

variable {seen begun : List String} {steps : List StepRun} {r : Run} {w : World} {now : Time}

lemma Late.modifyStep (late : Late seen steps) (id : String)
    (new : id ∉ seen) (change : StepRun → StepRun) (keepsID : ∀ s,s.stepID = id → (change s).stepID = id) :
    Late seen (modifyStep id change steps) := by
  induction steps generalizing seen with
  | nil => trivial
  | cons s rest ih =>
    obtain ⟨first,others⟩ := late
    unfold Tempest.modifyStep
    split_ifs with same
    · refine ⟨?_,?_⟩
      · intro again
        rw [keepsID s same] at again
        exact absurd again new
      · rw [keepsID s same,← same]
        exact others
    · refine ⟨first,ih others ?_⟩
      intro again
      rcases mem_cons.mp again with equal | old
      · exact same equal.symm
      · exact new old

lemma Late.distinct (late : Late seen steps) (started : ∀ s ∈ steps,s.state ≠ .pending) :
    (steps.map StepRun.stepID).Nodup ∧ ∀ x ∈ steps.map StepRun.stepID,x ∉ seen := by
  induction steps generalizing seen with
  | nil => exact ⟨nodup_nil,by simp⟩
  | cons s rest ih =>
    obtain ⟨first,others⟩ := late
    obtain ⟨distinct,fresh⟩ := ih others (fun t inside => started t (mem_cons_of_mem _ inside))
    rw [map_cons,nodup_cons]
    refine ⟨⟨fun again => fresh _ again (by simp),distinct⟩,?_⟩
    intro x member old
    rcases mem_cons.mp member with rfl | inside
    · exact started s (by simp) (first old)
    · exact fresh x inside (mem_cons_of_mem _ old)

lemma mem_modifyStep (id : String) (change : StepRun → StepRun) (steps : List StepRun) (s : StepRun)
    (member : s ∈ modifyStep id change steps) : s ∈ steps ∨ ∃ t ∈ steps,t.stepID = id ∧ s = change t := by
  induction steps with
  | nil => cases member
  | cons t rest ih =>
    unfold modifyStep at member
    split_ifs at member with same
    · rcases mem_cons.mp member with rfl | inside
      · exact .inr ⟨t,by simp,same,rfl⟩
      · exact .inl (mem_cons_of_mem _ inside)
    · rcases mem_cons.mp member with rfl | inside
      · exact .inl (by simp)
      · rcases ih inside with old | ⟨u,known,named,equal⟩
        · exact .inl (mem_cons_of_mem _ old)
        · exact .inr ⟨u,mem_cons_of_mem _ known,named,equal⟩

/-- Only first steps with ids of the list `begun` have been touched. -/
structure Fair (begun : List String) (steps : List StepRun) : Prop where
  late : Late [] steps
  earned : ∀ s ∈ steps, s.state ≠ .pending → s.stepID ∈ begun

lemma Fair.grow {more : List String} (fair : Fair begun steps) : Fair (begun ++ more) steps :=
  ⟨fair.late,fun s member state => mem_append_left _ (fair.earned s member state)⟩

lemma Fair.modifyStep (fair : Fair begun steps) (id : String)
    (member : id ∈ begun) (change : StepRun → StepRun) (keepsID : ∀ s,s.stepID = id → (change s).stepID = id) :
    Fair begun (modifyStep id change steps) := by
  refine ⟨fair.late.modifyStep id (by simp) change keepsID,?_⟩
  intro s inside state
  rcases mem_modifyStep id change steps s inside with old | ⟨t,_,named,rfl⟩
  · exact fair.earned s old state
  · rw [keepsID t named]
    exact member

lemma Fair.markQueued (fair : Fair begun steps) (ready : List StepRun)
    (members : ∀ s ∈ ready,s.stepID ∈ begun) : Fair begun (markQueued ready steps) := by
  induction ready generalizing steps with
  | nil => exact fair
  | cons s rest ih =>
    have first := fair.modifyStep s.stepID (members s (by simp)) toQueued (fun _ same => same)
    exact ih first (fun t inside => members t (mem_cons_of_mem _ inside))

lemma stepStates_mem (steps : List StepRun) (x : String) (state : StepState)
    (found : stepStates steps x = some state) : ∃ s ∈ steps,s.stepID = x ∧ s.state = state := by
  induction steps using List.reverseRecOn with
  | nil => cases found
  | append_singleton rest s ih =>
    rw [stepStates,foldl_append] at found
    simp only [foldl_cons,foldl_nil,assign] at found
    split_ifs at found with same
    · exact ⟨s,by simp,same.symm,Option.some.inj found⟩
    · obtain ⟨t,inside,fields⟩ := ih found
      exact ⟨t,mem_append_left _ inside,fields⟩

lemma Fair.ready (fair : Fair begun r.steps) (d : WorkflowDefinition) (x : String)
    (member : x ∈ (readySteps d r).map StepRun.stepID) (dep : String)
    (depends : dep ∈ dependencies d x) : dep ∈ begun := by
  obtain ⟨s,inside,rfl⟩ := mem_map.mp member
  have ready := (mem_filter.mp inside).2
  simp only [isReady,Bool.decide_and,Bool.and_eq_true,decide_eq_true_eq,all_eq_true] at ready
  obtain ⟨state,found,done⟩ := (Option.any_eq_true _ _).mp (ready.2 dep depends)
  obtain ⟨t,known,rfl,same⟩ := stepStates_mem r.steps dep state found
  refine fair.earned t known ?_
  intro pending
  rw [same.symm.trans pending] at done
  cases done

/-- The run filed under `k` is an execution of `d` that has begun the steps of the
ordered list `begun`, and of that run nothing else is queued. -/
structure Begun (d : WorkflowDefinition) (k : String) (w : World) (r : Run) (begun : List String) : Prop where
  stored : w.store.runs.lookup k = some r
  defined : w.store.definitions.lookup r.workflow.key = some d
  ids : r.ids = d.steps.map StepDefinition.id
  fair : Fair begun r.steps
  ordered : Ordered (Workflow.dependencies d) begun
  inside : ∀ x ∈ begun, x ∈ r.ids
  queued : ∀ q item, w.store.queue.lookup q = some item → runKey item.ns item.runID = k →
    item.ns = r.ns ∧ item.runID = r.id ∧ item.stepID ∈ begun
  arranged : r.state = .succeeded → Arranged d

lemma arranged_of_allDone {d : WorkflowDefinition}
    (ids : r.ids = d.steps.map StepDefinition.id) (fair : Fair begun r.steps)
    (ordered : Ordered (dependencies d) begun) (inside : ∀ x ∈ begun,x ∈ r.ids)
    (done : allDone r = true) : Arranged d := by
  have started : ∀ s ∈ r.steps,s.state ≠ .pending := by
    intro s member pending
    have finished := all_eq_true.mp done s member
    rw [pending] at finished
    cases finished
  have distinct := (fair.late.distinct started).1
  refine arranged_of_order (by rw [← ids]; exact distinct) begun ordered ?_
  intro x
  rw [← ids]
  refine ⟨inside x,?_⟩
  intro known
  obtain ⟨s,member,rfl⟩ := mem_map.mp known
  exact fair.earned s member (started s member)

lemma Begun.enqueue {d : WorkflowDefinition} {k : String} {w' : World} {r' : Run} {items : String → Option QueueItem} {log : List Invocation}
    (begun_ : Begun d k w r begun) (fair : Fair begun steps) (ids : steps.map StepRun.stepID = r.ids)
    (moves : Moves w w' r r' (enqueued r now (readySteps d { r with steps }) items) log)
    (marked : r'.steps = markQueued (readySteps d { r with steps }) steps)
    (old : ∀ x item,items x = some item → w.item r x = some item)
    (arranged : r'.state = .succeeded → Arranged d) :
    Begun d k w' r' (begun ++ (readySteps d { r with steps }).map StepRun.stepID) := by
  have key := w.store.runs.lookup_key begun_.stored
  have ids' : r'.ids = r.ids := by
    rw [Run.ids,marked,markQueued_ids,ids]
  have listed : ∀ s ∈ readySteps d { r with steps },
      s.stepID ∈ begun ++ (readySteps d { r with steps }).map StepRun.stepID := by
    intro s member
    exact mem_append_right _ (mem_map.mpr ⟨s,member,rfl⟩)
  refine {
    stored := by rw [← key,← moves.key]; exact moves.stored
    defined := by rw [moves.definitions,moves.workflow]; exact begun_.defined
    ids := ids'.trans begun_.ids
    fair := by rw [marked]; exact fair.grow.markQueued _ listed
    ordered := begun_.ordered.append _ (fair.ready (r := { r with steps }) d)
    inside := ?_,queued := ?_,arranged := arranged }
  · intro x member
    rw [ids']
    rcases mem_append.mp member with earlier | ready
    · exact begun_.inside x earlier
    · obtain ⟨s,known,rfl⟩ := mem_map.mp ready
      rw [← ids]
      exact mem_map.mpr ⟨s,(mem_filter.mp known).1,rfl⟩
  · intro q item found named
    have before : w.store.queue.lookup q = some item → item.ns = r'.ns ∧ item.runID = r'.id ∧
        item.stepID ∈ begun ++ (readySteps d { r with steps }).map StepRun.stepID := by
      intro present
      obtain ⟨ns,runID,member⟩ := begun_.queued q item present named
      rw [moves.ns,moves.id]
      exact ⟨ns,runID,mem_append_left _ member⟩
    by_cases own : ∃ x,q = queueKey r.ns r.id x
    · obtain ⟨x,rfl⟩ := own
      have here := (moves.items x).symm.trans found
      by_cases ready : x ∈ (readySteps d { r with steps }).map StepRun.stepID
      · obtain ⟨new,entered,ns,runID,stepID,_⟩ := enqueued_present r now _ items x ready
        rw [entered] at here
        cases here
        rw [moves.ns,moves.id]
        exact ⟨ns,runID,by rw [stepID]; exact mem_append_right _ ready⟩
      · rw [enqueued_absent r now _ items x ready] at here
        exact before (old x item here)
    · push Not at own
      rw [moves.others q own] at found
      exact before found

def polled (env : Env) (n : Nat) (w : World) : World := (fun w => ((processLeases env).run (exec env) w).2)^[n] w

lemma Begun.spared {d : WorkflowDefinition} {k q : String} {w' : World} (begun_ : Begun d k w r begun)
    (spared : Spared k q w w') : Begun d k w' r begun :=
  { begun_ with
    stored := by rw [spared.runs]; exact begun_.stored
    defined := by rw [spared.definitions]; exact begun_.defined
    queued := fun q' item found named => begun_.queued q' item (spared.queued q' item found named) named }

section Lease

variable {env : Env} (reliable : env.Reliable) {d : WorkflowDefinition} {k : String}

include reliable

lemma Begun.own (begun_ : Begun d k w r begun) (lease : QueueLease)
    (ns : lease.item.ns = r.ns) (runID : lease.item.runID = r.id) (member : lease.item.stepID ∈ begun)
    (present : (w.store.queue.lookup lease.item.key).isSome) :
    ∃ w' r' more,(processLease env lease).run (exec env) w = (.ok (),w') ∧ Begun d k w' r' (begun ++ more) ∧
      r'.ns = r.ns ∧ r'.id = r.id ∧
      ∀ q,q ≠ lease.item.key → (w.store.queue.lookup q).isSome → (w'.store.queue.lookup q).isSome := by
  have key := w.store.runs.lookup_key begun_.stored
  have known := begun_.inside _ member
  have filed : lease.item.key = queueKey r.ns r.id lease.item.stepID := by rw [QueueItem.key,ns,runID]
  obtain ⟨sd,named⟩ := findStepDef_of_mem d lease.item.stepID (by rw [← begun_.ids]; exact known)
  obtain ⟨w',r',items,log,runs,processed,moves⟩ := processLease_spec env d sd lease
    (by rw [key]; exact begun_.stored) begun_.defined named ns runID (by rw [World.item,← filed]; exact present)
  cases processed with
  | completed call steps tick started logged became from_ until_ state ready queue =>
    obtain ⟨change,keepsID,_,rfl⟩ := became
    have ids := modifyStep_ids lease.item.stepID change keepsID r.steps
    have fair := begun_.fair.modifyStep lease.item.stepID member change keepsID
    rw [queue] at moves
    refine ⟨w',r',_,runs,begun_.enqueue fair ids moves ready ?_ ?_,moves.ns,moves.id,?_⟩
    · intro x item found
      rw [update_none] at found
      split_ifs at found
      exact found
    · intro succeeded
      by_cases done : allDone { r with steps := modifyStep lease.item.stepID change r.steps } = true
      · exact arranged_of_allDone (r := { r with steps := modifyStep lease.item.stepID change r.steps })
          (ids.trans begun_.ids) fair begun_.ordered (fun x begins => by rw [Run.ids,ids]; exact begun_.inside x begins)
          done
      · rw [state,if_neg done] at succeeded
        exact begun_.arranged succeeded
    · intro q different there
      by_cases own : ∃ x,q = queueKey r.ns r.id x
      · obtain ⟨x,rfl⟩ := own
        change (w'.item r x).isSome
        rw [moves.items x]
        by_cases listed : x ∈ (readySteps d
            { r with steps := modifyStep lease.item.stepID change r.steps }).map StepRun.stepID
        · obtain ⟨new,entered,_⟩ := enqueued_present r (env.clock tick) _
            (Function.update (w.item r) lease.item.stepID none) x listed
          rw [entered]
          rfl
        · rw [enqueued_absent r _ _ _ x listed,Function.update_of_ne]
          · exact there
          · rintro rfl
            exact different filed.symm
      · push Not at own
        rw [moves.others q own]
        exact there
  | failed failing became state queue => exact (not_failing reliable failing).elim

lemma Begun.lease (begun_ : Begun d k w r begun) (lease : QueueLease)
    (own : runKey lease.item.ns lease.item.runID = k → lease.item.ns = r.ns ∧ lease.item.runID = r.id ∧
      lease.item.stepID ∈ begun) (present : (w.store.queue.lookup lease.item.key).isSome) :
    ∃ r' more,Begun d k ((processLease env lease).run (exec env) w).2 r' (begun ++ more) ∧ r'.ns = r.ns ∧ r'.id = r.id ∧
      ∀ q,q ≠ lease.item.key → (w.store.queue.lookup q).isSome →
        (((processLease env lease).run (exec env) w).2.store.queue.lookup q).isSome := by
  by_cases same : runKey lease.item.ns lease.item.runID = k
  · obtain ⟨ns,runID,member⟩ := own same
    obtain ⟨w',r',more,runs,next,sameNs,sameID,kept⟩ := begun_.own reliable lease ns runID member present
    rw [runs]
    exact ⟨r',more,next,sameNs,sameID,kept⟩
  · have spared := processLease_spared env w lease same
    refine ⟨r,[],?_,rfl,rfl,spared.present⟩
    rw [append_nil]
    exact begun_.spared spared

lemma Begun.batch (leases : List QueueLease) (begun_ : Begun d k w r begun)
    (own : ∀ lease ∈ leases,runKey lease.item.ns lease.item.runID = k → lease.item.ns = r.ns ∧
      lease.item.runID = r.id ∧ lease.item.stepID ∈ begun)
    (present : ∀ lease ∈ leases,(w.store.queue.lookup lease.item.key).isSome)
    (distinct : (leases.map (fun lease => lease.item.key)).Nodup) :
    ∃ r' begun',Begun d k ((processEach env leases).run (exec env) w).2 r' begun' := by
  induction leases generalizing w r begun with
  | nil => exact ⟨r,begun,begun_⟩
  | cons lease rest ih =>
    rw [map_cons,nodup_cons] at distinct
    obtain ⟨r₁,more,next,sameNs,sameID,kept⟩ :=
      begun_.lease reliable lease (own lease (by simp)) (present lease (by simp))
    unfold processEach
    rw [Prog.run_bind]
    -- a panic while another run is served ends the call
    split
    · exact ⟨r₁,_,next⟩
    · refine ih next ?_ ?_ distinct.2
      · intro other inside named
        obtain ⟨otherNs,otherID,begins⟩ := own other (mem_cons_of_mem _ inside) named
        exact ⟨by rw [sameNs]; exact otherNs,by rw [sameID]; exact otherID,mem_append_left _ begins⟩
      · intro other inside
        refine kept _ ?_ (present other (mem_cons_of_mem _ inside))
        intro same
        exact distinct.1 (mem_map.mpr ⟨other,inside,same⟩)

lemma Begun.processLeases (begun_ : Begun d k w r begun) :
    ∃ r' begun',Begun d k ((processLeases env).run (exec env) w).2 r' begun' := by
  obtain ⟨w₁,leases,taken,runs,dequeued⟩ := dequeueLeases_run env w
  have queued : ∀ q item,w₁.store.queue.lookup q = some item → runKey item.ns item.runID = k →
      item.ns = r.ns ∧ item.runID = r.id ∧ item.stepID ∈ begun := by
    intro q item found named
    obtain ⟨old,before,ns,runID,stepID⟩ := found_before (dequeued.lookup_same q) found
    rw [← ns,← runID] at named
    rw [← ns,← runID,← stepID]
    exact begun_.queued q old before named
  have next := {
    begun_ with
    stored := by rw [dequeued.runs]; exact begun_.stored
    defined := by rw [dequeued.definitions]; exact begun_.defined
    queued := queued }
  unfold Engine.processLeases
  rw [Prog.run_bind,runs]
  refine next.batch reliable leases ?_ ?_ dequeued.lease_keys
  · intro lease member
    exact queued _ _ (dequeued.leased lease member)
  · intro lease member
    exact Option.isSome_of_eq_some (dequeued.leased lease member)

lemma Begun.iterate (n : Nat) (begun_ : Begun d k w r begun) :
    ∃ r' begun',Begun d k (polled env n w) r' begun' := by
  induction n generalizing w r begun with
  | zero => exact ⟨r,begun,begun_⟩
  | succ n ih =>
    obtain ⟨r₁,begun₁,next⟩ := begun_.processLeases reliable
    exact ih next

end Lease

lemma begun_of_submitted {d : WorkflowDefinition} {w₀ w' : World}
    (submitted : Submitted w w₀ d r)
    (others : ∀ q item,w.store.queue.lookup q = some item → runKey item.ns item.runID ≠ r.key)
    (moves : Releases d r now w₀ w') : Begun d r.key w' (r.released d) ((readySteps d r).map StepRun.stepID) := by
  have pending : ∀ s ∈ r.steps,s.state = .pending := by
    intro s member
    rw [submitted.steps] at member
    obtain ⟨sd,_,rfl⟩ := mem_map.mp member
    rfl
  have fair : Fair [] r.steps := ⟨late_of_pending [] r.steps pending,fun s member state => absurd (pending s member) state⟩
  have waits : r.state ≠ .succeeded := by
    rw [submitted.state]
    decide
  have start : Begun d r.key w₀ r [] := {
    stored := by rw [submitted.runs,if_pos rfl]
    defined := by rw [submitted.definitions,submitted.workflow]; exact submitted.defined
    ids := submitted.ids,fair := fair,ordered := .nil,inside := by simp
    queued := by
      intro q item found named
      rw [submitted.queue] at found
      exact absurd named (others q item found)
    arranged := fun succeeded => absurd succeeded waits }
  exact start.enqueue fair rfl moves rfl (fun _ _ found => found) (fun succeeded => absurd succeeded waits)

end Tempest.Arrangement
