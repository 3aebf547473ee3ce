import Tempest.Arrangement

/-! Runs that come to their end among other work. Under handlers that succeed and a
clock that moves on, let each `ProcessLeases` call take one item, and let it look at
the steps of the run in an order in which none comes before what it depends on. Then
each call completes the next step, whatever else is queued. -/
namespace Tempest.Completion
open Interaction Filing Progress Engine Dependency Arrangement Function Workflow List

structure Serving (base : Time) (keys : List String) (env : Env) : Prop extends env.Reliable where
  clock : ∀ tick : Nat, env.clock tick = base + tick
  order : ∀ tick, env.order tick = keys
  single : env.maxDequeue = 1

lemma exists_serving (base : Time) (keys : List String) : ∃ env,Serving base keys env :=
  ⟨{ Env.steady with clock := fun tick => base + tick,order := fun _ => keys,maxDequeue := 1 },
    ⟨⟨fun _ => rfl,fun _ _ _ => ⟨{},rfl,rfl⟩⟩,fun _ => rfl,fun _ => rfl,rfl⟩⟩

structure Queued (base : Time) (w : World) (r : Run) (x : String) (item : QueueItem) : Prop where
  found : w.item r x = some item
  ns : item.ns = r.ns
  runID : item.runID = r.id
  stepID : item.stepID = x
  visible : item.visibleAt < base + w.tick

/-- The run filed under `k` has completed the steps `done` and no others, each once
more than `before`. -/
structure Underway (d : WorkflowDefinition) (k : String) (base : Time) (before : String → Nat) (done rest : List String)
    (w : World) (r : Run) : Prop where
  stored : w.store.runs.lookup k = some r
  defined : w.store.definitions.lookup r.workflow.key = some d
  ids : r.ids = d.steps.map StepDefinition.id
  distinct : r.ids.Nodup
  listed : (done ++ rest).Perm r.ids
  ordered : Ordered (dependencies d) (done ++ rest)
  sound : Sound (dependencies d) r.status
  ended : ∀ x ∈ done, r.status x = some .succeeded ∧ w.item r x = none ∧ w.executions r x = before x + 1
  waiting : ∀ x ∈ rest, w.executions r x = before x ∧
    (r.status x = some .pending ∨ r.status x = some .queued ∧ ∃ item, Queued base w r x item)
  finished : rest = [] → r.state = .succeeded

/-- One poll has completed the step `x` of the run and released what became ready. -/
structure Served (base : Time) (d : WorkflowDefinition) (x : String) (w w' : World) (r r' : Run)
    (σ : Status String) : Prop where
  completed : σ = update r.status x (some .succeeded)
  ns : r'.ns = r.ns
  id : r'.id = r.id
  ids : r'.ids = r.ids
  stored : w'.store.runs.lookup r.key = some r'
  defined : w'.store.definitions.lookup r'.workflow.key = some d
  ticks : w.tick ≤ w'.tick
  status : r'.status = release (dependencies d) σ
  promoted : (∀ y ∈ r.ids, Done σ y) → r'.state = .succeeded
  executions : ∀ y, w'.executions r' y = w.executions r y + if y = x then 1 else 0
  entered : ∀ y, Ready (dependencies d) σ y → ∃ item, Queued base w' r' y item
  others : ∀ y, ¬ Ready (dependencies d) σ y → w'.item r' y = if y = x then none else w.item r y

section Step

variable {env : Env} {d : WorkflowDefinition} {k : String} {base : Time} {before : String → Nat} {done rest : List String}
  {x : String} {w w' : World} {r r' : Run} {σ : Status String}
  (underway : Underway d k base before done (x :: rest) w r)
include underway

lemma Underway.next : r.status x = some .queued ∧ ∃ item,Queued base w r x item := by
  rcases (underway.waiting x (by simp)).2 with pending | queued
  · refine absurd rfl ((underway.sound.released x .pending pending).mpr ?_)
    intro dep depends
    have earlier := underway.ordered done x rest rfl dep depends
    unfold Done
    rw [(underway.ended dep earlier).1]
    rfl
  · exact queued

lemma Underway.leased (serving : Serving base ((done ++ x :: rest).map (queueKey r.ns r.id)) env) :
    ∃ lease w₁,(dequeueLeases env).run (exec env) w = ([lease],w₁) ∧
      lease.item.ns = r.ns ∧ lease.item.runID = r.id ∧ lease.item.stepID = x ∧ w.tick ≤ w₁.tick ∧
      w₁.store.runs = w.store.runs ∧ w₁.store.definitions = w.store.definitions ∧ w₁.invocations = w.invocations ∧
      (w₁.item r x).isSome ∧ ∀ y,y ≠ x → w₁.item r y = w.item r y := by
  obtain ⟨_,item,queued⟩ := underway.next
  have key : item.key = queueKey r.ns r.id x := w.store.queue.lookup_key queued.found
  have order := serving.order (w.tick + 1)
  rw [map_append,map_cons] at order
  have runs := dequeueLeases_first env w serving.single order ?_ ?_ queued.found
    (by rw [serving.clock]; exact queued.visible)
  · refine ⟨_,_,runs,queued.ns,queued.runID,queued.stepID,Nat.le_add_right _ _,rfl,rfl,rfl,?_,?_⟩
    · simp [World.item,Table.lookup_insert,key]
    · intro y different
      simp only [World.item,Table.lookup_insert,Store.lease_key,key]
      rw [if_neg (fun same => different (queueKey_injective _ _ _ _ same))]
  · rw [← map_cons,← map_append]
    exact (underway.listed.nodup_iff.mpr underway.distinct).map (fun _ _ same => queueKey_injective _ _ _ _ same)
  · intro q member
    obtain ⟨y,earlier,rfl⟩ := mem_map.mp member
    exact (underway.ended y earlier).2.1

lemma Underway.served (serving : Serving base ((done ++ x :: rest).map (queueKey r.ns r.id)) env) :
    ∃ r' σ,Served base d x w ((processLeases env).run (exec env) w).2 r r' σ := by
  obtain ⟨lease,w₁,taken,ns,runID,rfl,ticks,runs,definitions,invocations,present,others⟩ := underway.leased serving
  have key := w.store.runs.lookup_key underway.stored
  have member : lease.item.stepID ∈ r.ids := underway.listed.subset (by simp)
  obtain ⟨sd,named⟩ := findStepDef_of_mem d lease.item.stepID (by rw [← underway.ids]; exact member)
  obtain ⟨w',r',items,log,processes,processed,moves⟩ := processLease_spec env d sd lease
    (by rw [runs,key]; exact underway.stored) (by rw [definitions]; exact underway.defined) named ns runID present
  have reached : ((processLeases env).run (exec env) w).2 = w' := by
    unfold processLeases processEach
    rw [Prog.run_bind,taken]
    dsimp only
    rw [Prog.run_bind,processes]
    rfl
  rw [reached]
  obtain ⟨ids,⟨call,succeeds⟩ | fails⟩ := processed.settled underway.distinct member
  · refine ⟨r',_,{
      completed := rfl,ns := moves.ns,id := moves.id,ids := ids,stored := by rw [← moves.key]; exact moves.stored
      defined := by rw [moves.definitions,moves.workflow,definitions]; exact underway.defined
      ticks := ticks.trans moves.ticks,status := succeeds.status,promoted := succeeds.promoted
      executions := ?_,entered := ?_,others := ?_ }⟩
    · intro y
      rw [executions_started moves succeeds.started succeeds.logged,World.executions,invocations]
      rfl
    · intro y ready
      obtain ⟨item,found,ns,runID,stepID,tick,soon,visibleAt⟩ := succeeds.entered y ready
      refine ⟨item,by rw [moves.item_eq]; exact found,by rw [moves.ns]; exact ns,by rw [moves.id]; exact runID,stepID,?_⟩
      rw [visibleAt,serving.clock]
      exact Int.add_lt_add_left (Int.ofNat_lt.mpr soon) base
    · intro y waits
      rw [moves.item_eq,succeeds.others y waits]
      split_ifs with same
      · rfl
      · exact others y same
  · exact (not_failing serving.toReliable fails.failing).elim

lemma Underway.step (served : Served base d x w w' r r' σ) : Underway d k base before (done ++ [x]) rest w' r' := by
  obtain ⟨queued,-⟩ := underway.next
  have apart : ∀ y,y ∈ done ∨ y ∈ rest → y ≠ x := by
    rintro y inside rfl
    have nodup := underway.listed.nodup_iff.mpr underway.distinct
    simp only [nodup_append,nodup_cons] at nodup
    rcases inside with earlier | later
    · exact nodup.2.2 _ earlier _ (by simp) rfl
    · exact nodup.2.1.1 later
  have succeeded : ∀ y ∈ done ++ [x],σ y = some .succeeded := by
    intro y inside
    rw [served.completed]
    rcases mem_append.mp inside with earlier | here
    · rw [update_of_ne (apart y (.inl earlier))]
      exact (underway.ended y earlier).1
    · rw [mem_singleton.mp here,update_self]
  have same : done ++ [x] ++ rest = done ++ x :: rest := by simp
  refine {
    stored := by rw [← w.store.runs.lookup_key underway.stored]; exact served.stored
    defined := served.defined
    ids := served.ids.trans underway.ids,distinct := by rw [served.ids]; exact underway.distinct
    listed := by rw [served.ids,same]; exact underway.listed
    ordered := by rw [same]; exact underway.ordered
    sound := by rw [served.status,served.completed]; exact succeed_sound underway.sound _ queued
    ended := ?_,waiting := ?_,finished := ?_ }
  · intro y inside
    have started : ¬ Ready (dependencies d) σ y := by
      unfold Ready
      simp [succeeded y inside]
    rw [served.status,release,if_neg started,served.others y started,served.executions]
    refine ⟨succeeded y inside,?_⟩
    rcases mem_append.mp inside with earlier | here
    · have different := apart y (.inl earlier)
      rw [if_neg different,if_neg different]
      exact (underway.ended y earlier).2
    · rw [mem_singleton.mp here,if_pos rfl,if_pos rfl,(underway.waiting _ (by simp)).1]
      exact ⟨rfl,rfl⟩
  · intro y later
    have different := apart y (.inr later)
    obtain ⟨ran,state⟩ := underway.waiting y (mem_cons_of_mem _ later)
    rw [served.executions,if_neg different]
    refine ⟨ran,?_⟩
    by_cases ready : Ready (dependencies d) σ y
    · exact .inr ⟨by rw [served.status,release,if_pos ready],served.entered y ready⟩
    · rw [served.status,release,if_neg ready,served.completed,update_of_ne different]
      refine state.imp_right ?_
      rintro ⟨queues,item,waits⟩
      have clock : base + (w.tick : Int) ≤ base + (w'.tick : Int) :=
        Int.add_le_add_left (Int.ofNat_le.mpr served.ticks) base
      refine ⟨queues,item,?_,by rw [served.ns]; exact waits.ns,by rw [served.id]; exact waits.runID,waits.stepID,
        lt_of_lt_of_le waits.visible clock⟩
      rw [served.others y ready,if_neg different]
      exact waits.found
  · rintro rfl
    apply served.promoted
    intro y known
    unfold Done
    rw [succeeded y (underway.listed.mem_iff.mpr known)]
    rfl

omit underway in
lemma Underway.finishes (serving : Serving base ((done ++ rest).map (queueKey r.ns r.id)) env)
    (underway : Underway d k base before done rest w r) :
    ∃ n r',r'.ns = r.ns ∧ r'.id = r.id ∧ Underway d k base before (done ++ rest) [] (polled env n w) r' := by
  induction rest generalizing done w r with
  | nil =>
    rw [append_nil]
    exact ⟨0,r,rfl,rfl,underway⟩
  | cons x rest ih =>
    obtain ⟨r₁,σ,served⟩ := underway.served serving
    rw [append_cons] at serving ⊢
    rw [← served.ns,← served.id] at serving ⊢
    obtain ⟨n,reached⟩ := ih serving (underway.step served)
    exact ⟨n + 1,reached⟩

end Step

lemma underway_of_submitted {d : WorkflowDefinition} {w w₀ w' : World} {r : Run} {now : Time} (submitted : Submitted w w₀ d r)
    (moves : Releases d r now w₀ w') (distinct : (d.steps.map StepDefinition.id).Nodup)
    {order : List String} (ordered : Ordered (dependencies d) order) (listed : order.Perm (d.steps.map StepDefinition.id)) :
    Underway d r.key (now + 1) (w'.executions r) [] order w' (r.released d) := by
  have nodup : r.ids.Nodup := by rw [submitted.ids]; exact distinct
  have status := released_status d r nodup
  have ids := released_ids r d
  refine {
    stored := moves.stored
    defined := by rw [moves.definitions,submitted.definitions,moves.workflow,submitted.workflow]; exact submitted.defined
    ids := ids.trans submitted.ids,distinct := by rw [ids]; exact nodup
    listed := by rw [ids,submitted.ids]; exact listed
    ordered := ordered,sound := by rw [status]; exact start_sound (submitted.pending distinct)
    ended := by simp,waiting := ?_,finished := ?_ }
  · intro x member
    have known : x ∈ r.ids := by rw [submitted.ids]; exact listed.subset member
    refine ⟨rfl,?_⟩
    by_cases ready : x ∈ (readySteps d r).map StepRun.stepID
    · obtain ⟨item,entered,ns,runID,stepID,visibleAt⟩ := enqueued_present r now _ (w₀.item r) x ready
      refine .inr ⟨?_,item,(moves.items x).trans entered,ns,runID,stepID,?_⟩
      · rw [status,release,if_pos ((readySteps_ready d r nodup x).mp ready)]
      · rw [visibleAt]
        exact Int.lt_of_lt_of_le (Int.lt_succ now) (Int.le_add_of_nonneg_right (Int.natCast_nonneg w'.tick))
    · obtain ⟨state,found⟩ := Option.isSome_iff_exists.mp (status_isSome r nodup known)
      rw [status,release,if_neg (mt (readySteps_ready d r nodup x).mpr ready),found,submitted.pending distinct x state found]
      exact .inl rfl
  · rintro rfl
    exact absurd (map_eq_nil_iff.mp (nil_perm.mp listed)) submitted.nonempty

end Tempest.Completion
