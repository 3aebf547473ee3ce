import Tempest.Workers

/-! The engine with concurrent workers as one system: submissions and polls, and
the atomic operations of all the calls in progress, in any order. What every
reachable state satisfies is said in terms of the shapes of the stored runs,
which no worker changes. -/
open List
namespace Tempest
open Interaction Filing Engine

abbrev Call.Thread := Interaction.Thread Op.Res Worker (Except Failure Unit)
abbrev System := Pool Op.Res World Worker (Except Failure Unit)

inductive Choice
  | submit (input : RunInput)
  | poll
  | advance (i : Nat)

def startCall (env : Env) (lease : QueueLease) : Call.Thread := ⟨⟨lease,none,.leased⟩,processLease env lease⟩

def act (env : Env) (s : System) : Choice → System
  | .submit input => { s with shared := ((submit input).run (exec env) s.shared).2 }
  | .poll =>
    let (leases,w) := (dequeueLeases env).run (exec env) s.shared
    ⟨w,s.threads ++ leases.map (startCall env)⟩
  | .advance i => s.advance (exec env) Worker.observe i

/-- What of a run no update changes. -/
structure Shape where
  ns : Namespace
  id : String
  workflow : WorkflowID
  ids : List String
  deriving DecidableEq

def Run.shape (r : Run) : Shape := ⟨r.ns,r.id,r.workflow,r.ids⟩

def World.shape (w : World) (k : String) : Option Shape := (w.store.runs.lookup k).map Run.shape

def Belongs (w : World) (item : QueueItem) : Prop :=
  ∃ shape, w.shape (runKey item.ns item.runID) = some shape ∧ shape.ns = item.ns ∧ shape.id = item.runID ∧
    item.stepID ∈ shape.ids

structure Sane (s : System) : Prop where
  accepting : Accepting s.shared.store
  shapes : ∀ k shape, s.shared.shape k = some shape → '/' ∉ shape.id.toList ∧
    ∃ d, s.shared.store.definitions.lookup shape.workflow.key = some d ∧ shape.ids = d.steps.map StepDefinition.id
  queue : ∀ q item, s.shared.store.queue.lookup q = some item → Belongs s.shared item
  leases : ∀ t ∈ s.threads, Belongs s.shared t.label.lease.item
  copies : ∀ t ∈ s.threads, ∀ copy, t.label.copy = some copy → s.shared.shape copy.key = some copy.shape
  obeys : ∀ t ∈ s.threads, t.Obeys Worker.discipline

lemma Fresh.sane {w : World} (fresh : Fresh w) : Sane ⟨w,[]⟩ := by
  refine ⟨fresh.accepting,?_,?_,by simp,by simp,by simp⟩
  · intro k shape found
    change (w.store.runs.lookup k).map Run.shape = some shape at found
    rw [fresh.runs] at found
    cases found
  · intro q item found
    rw [fresh.queue] at found
    cases found

lemma Run.putStep_shape (step : StepRun) (r : Run) : (r.putStep step).shape = r.shape := by
  have ids : (r.putStep step).ids = r.ids := by
    rw [Run.putStep,replaceStep_eq]
    exact modifyStep_ids step.stepID (fun _ => step) (fun _ _ => rfl) r.steps
  unfold Run.shape
  rw [ids]
  rfl

lemma withState_shape (r : Run) (target : RunState) (stamp : Time) :
    (Store.Run.withState r target stamp).shape = r.shape := by
  simp [Run.shape,Run.ids]

namespace Worker

variable {l : Worker} {op : Op}

lemma observe_lease (answer : op.Res) : (l.observe op answer).lease = l.lease := by
  cases op with
  | getRun ns id => cases answer <;> rfl
  | _ => rfl

variable (env : Env) (w : World)

lemma permitted_shape (permitted : l.permitted op) (k : String) : (exec env op w).2.shape k = w.shape k := by
  have mapped : ∀ (old : Option Run) change,(∀ r,(change r).shape = r.shape) →
      (old.map change).map Run.shape = old.map Run.shape := by
    intro old change keeps
    rw [Option.map_map]
    exact congrFun (congrArg Option.map (funext keeps)) old
  unfold World.shape
  cases op with
  | updateStepState ns id step =>
    rw [exec_updateStepState_lookup]
    split_ifs
    · exact mapped _ _ (Run.putStep_shape step)
    · rfl
  | updateRunState ns id target stamp =>
    rw [exec_updateRunState_lookup]
    split_ifs
    · exact mapped _ _ (fun r => withState_shape r target stamp)
    · rfl
  | createRun r | updateRunError ns id errMsg => exact permitted.elim
  | _ => rw [exec_runs env w _ rfl]

lemma permitted_definitions (permitted : l.permitted op) :
    (exec env op w).2.store.definitions = w.store.definitions := by
  cases op with
  | createDefinition d => exact permitted.elim
  | _ => exact exec_definitions env w _ rfl

lemma permitted_queue (permitted : l.permitted op) (q : String) (item : QueueItem)
    (found : (exec env op w).2.store.queue.lookup q = some item) : w.store.queue.lookup q = some item ∨
      ∃ copy,l.copy = some copy ∧ item.ns = copy.ns ∧ item.runID = copy.id ∧ item.stepID ∈ copy.ids := by
  cases op with
  | enqueue entered =>
    rw [exec_enqueue_lookup] at found
    split_ifs at found with same
    · cases found
      exact .inr permitted.2
    · exact .inl found
  | completeStep ns runID stepID token =>
    rw [exec_completeStep_lookup] at found
    split_ifs at found
    exact .inl found
  | dequeueAny limit now => exact permitted.elim
  | _ =>
    rw [exec_queue env w _ rfl] at found
    exact .inl found

end Worker

lemma Belongs.mono {w w' : World} {item : QueueItem}
    (grows : ∀ k shape,w.shape k = some shape → w'.shape k = some shape) (belongs : Belongs w item) :
    Belongs w' item := by
  obtain ⟨shape,found,fields⟩ := belongs
  exact ⟨shape,grows _ _ found,fields⟩

variable {t : Call.Thread} {i : Nat}

abbrev System.acted (s : System) (env : Env) (i : Nat) (l : Worker) {op : Op} (next : op.Res → M (Except Failure Unit)) :
    System where
  shared := (exec env op s.shared).2
  threads := s.threads.set i ⟨l.observe op (exec env op s.shared).1,next (exec env op s.shared).1⟩

section Step

variable {env : Env} {s : System}

namespace Sane

lemma credible (sane : Sane s) (reliable : env.Reliable) (member : t ∈ s.threads) {op : Op}
    (permitted : t.label.permitted op) : t.label.credible op (exec env op s.shared).1 := by
  cases op with
  | getRun ns id =>
    obtain ⟨_,sameNs,sameID⟩ := permitted
    obtain ⟨shape,found,shapeNs,shapeID,known⟩ := sane.leases t member
    simp only [exec,Store.getRun]
    rw [sameNs,sameID]
    cases stored : s.shared.store.runs.lookup (runKey t.label.lease.item.ns t.label.lease.item.runID) with
    | none => exact trivial
    | some run =>
      rw [World.shape,stored] at found
      cases found
      exact ⟨shapeNs,shapeID,known⟩
  | execute handler run handle => exact reliable.succeeds _ _ _
  | _ => exact trivial

lemma observed (sane : Sane s) (member : t ∈ s.threads) {op : Op} (copy : Run)
    (seen : (t.label.observe op (exec env op s.shared).1).copy = some copy) :
    s.shared.shape copy.key = some copy.shape := by
  have before := sane.copies t member
  cases op with
  | getRun ns id =>
    simp only [exec,Store.getRun] at seen
    cases stored : s.shared.store.runs.lookup (runKey ns id) with
    | none =>
      rw [stored] at seen
      exact before copy seen
    | some run =>
      rw [stored] at seen
      cases seen
      rw [World.shape,s.shared.store.runs.lookup_key stored,stored]
      rfl
  | updateStepState ns id step =>
    obtain ⟨old,held,changed⟩ := Option.map_eq_some_iff.mp seen
    subst changed
    rw [Run.putStep_shape]
    exact before old held
  | _ => exact before copy seen

lemma acts (sane : Sane s) (reliable : env.Reliable) {l : Worker} {op : Op}
    {next : op.Res → M (Except Failure Unit)} (found : s.threads[i]? = some ⟨l,.call op next⟩)
    (permitted : l.permitted op) (continues : l.credible op (exec env op s.shared).1 →
      (next (exec env op s.shared).1).Obeys Worker.discipline (l.observe op (exec env op s.shared).1)) :
    Sane (s.acted env i l next) := by
  have member := mem_of_getElem? found
  have shape := Worker.permitted_shape env s.shared permitted
  have grows : ∀ k shape,s.shared.shape k = some shape → (exec env op s.shared).2.shape k = some shape := by
    intro k known here
    rw [shape]
    exact here
  have definitions := Worker.permitted_definitions env s.shared permitted
  refine ⟨?_,?_,?_,?_,?_,?_⟩
  · intro k d stored
    rw [definitions] at stored
    exact sane.accepting k d stored
  · intro k known here
    rw [shape] at here
    rw [definitions]
    exact sane.shapes k known here
  · intro q item here
    rcases Worker.permitted_queue env s.shared permitted q item here with old | ⟨copy,held,ns,id,known⟩
    · exact (sane.queue q item old).mono grows
    · refine Belongs.mono grows ⟨copy.shape,?_,ns.symm,id.symm,known⟩
      rw [ns,id]
      exact sane.copies _ member copy held
  · intro t inside
    rcases mem_or_eq_of_mem_set inside with old | rfl
    · exact (sane.leases t old).mono grows
    · rw [Worker.observe_lease]
      exact (sane.leases _ member).mono grows
  · intro t inside copy held
    rw [shape]
    rcases mem_or_eq_of_mem_set inside with old | rfl
    · exact sane.copies t old copy held
    · exact sane.observed member copy held
  · intro t inside
    rcases mem_or_eq_of_mem_set inside with old | rfl
    · exact sane.obeys t old
    · exact continues (sane.credible reliable member permitted)

lemma poll (sane : Sane s) (reliable : env.Reliable) {w : World} {leases : List QueueLease} {taken : List QueueItem}
    (dequeued : Dequeued (env.clock s.shared.tick) s.shared w leases taken) :
    Sane ⟨w,s.threads ++ leases.map (startCall env)⟩ := by
  have shape : w.shape = s.shared.shape := by
    funext k
    rw [World.shape,World.shape,dequeued.runs]
  have grows : ∀ k known,s.shared.shape k = some known → w.shape k = some known := by
    intro k known here
    rw [shape]
    exact here
  have queue : ∀ q item,w.store.queue.lookup q = some item → Belongs w item := by
    intro q item here
    obtain ⟨old,stored,sameNs,runID,stepID⟩ := found_before (dequeued.lookup_same q) here
    obtain ⟨known,found,ns,id,inside⟩ := sane.queue q old stored
    rw [sameNs,runID] at found
    exact ⟨known,grows _ _ found,ns.trans sameNs,id.trans runID,stepID ▸ inside⟩
  have started : ∀ t ∈ leases.map (startCall env),∃ lease ∈ leases,t = startCall env lease := by
    intro t inside
    obtain ⟨lease,member,rfl⟩ := mem_map.mp inside
    exact ⟨lease,member,rfl⟩
  refine ⟨?_,?_,queue,?_,?_,?_⟩
  · intro k d stored
    rw [dequeued.definitions] at stored
    exact sane.accepting k d stored
  · intro k known here
    rw [shape] at here
    rw [dequeued.definitions]
    exact sane.shapes k known here
  · intro t inside
    rcases mem_append.mp inside with old | new
    · exact (sane.leases t old).mono grows
    · obtain ⟨lease,member,rfl⟩ := started t new
      exact queue _ _ (dequeued.leased lease member)
  · intro t inside copy held
    rw [shape]
    rcases mem_append.mp inside with old | new
    · exact sane.copies t old copy held
    · obtain ⟨lease,member,rfl⟩ := started t new
      cases held
  · intro t inside
    rcases mem_append.mp inside with old | new
    · exact sane.obeys t old
    · obtain ⟨lease,member,rfl⟩ := started t new
      exact processLease_obeys reliable lease

end Sane

end Step

/-- A submission that has created the run `r` and enqueued its ready steps. -/
structure Entered (w w' : World) (d : WorkflowDefinition) (r : Run) : Prop where
  defined : w.store.definitions.lookup r.workflow.key = some d
  nonempty : d.steps ≠ []
  absent : w.store.runs.lookup r.key = none
  id : '/' ∉ r.id.toList
  ids : r.ids = d.steps.map StepDefinition.id
  waiting : ∀ s ∈ r.steps, s.state.isDone = false
  runs : ∀ k, w'.store.runs.lookup k = if k = r.key then some r else w.store.runs.lookup k
  queue : ∀ q, w'.store.queue.lookup q = w.store.queue.lookup q ∨
    ∃ x ∈ r.ids, q = queueKey r.ns r.id x ∧
      ∃ item, w'.store.queue.lookup q = some item ∧ item.ns = r.ns ∧ item.runID = r.id ∧ item.stepID = x
  definitions : w'.store.definitions = w.store.definitions
  invocations : w'.invocations = w.invocations

lemma markQueued_waiting (ready steps : List StepRun) (waiting : ∀ s ∈ steps,s.state.isDone = false) :
    ∀ s ∈ markQueued ready steps,s.state.isDone = false := by
  have one : ∀ id steps,(∀ s ∈ steps,s.state.isDone = false) →
      ∀ s ∈ modifyStep id toQueued steps,s.state.isDone = false := by
    intro id steps
    induction steps with
    | nil => exact fun waiting => waiting
    | cons first rest ih =>
      intro waiting s member
      unfold modifyStep at member
      split_ifs at member
      · rcases mem_cons.mp member with rfl | inside
        · rfl
        · exact waiting s (mem_cons_of_mem _ inside)
      · rcases mem_cons.mp member with rfl | inside
        · exact waiting s (by simp)
        · exact ih (fun t later => waiting t (mem_cons_of_mem _ later)) s inside
  induction ready generalizing steps with
  | nil => exact waiting
  | cons s rest ih => exact ih _ (one s.stepID steps waiting)

lemma submit_enters (env : Env) (input : RunInput) (w : World) :
    (((submit input).run (exec env) w).2.store = w.store ∧
      ((submit input).run (exec env) w).2.invocations = w.invocations) ∨
    ∃ d r,Entered w ((submit input).run (exec env) w).2 d r := by
  rcases submit_spec env input w with ⟨e,w',runs,store,invocations⟩ | ⟨d,r,w₀,w',runs,submitted,_,_,moves⟩
  · rw [runs]
    exact .inl ⟨store,invocations⟩
  · rw [runs]
    have ids := released_ids r d
    obtain ⟨unixNano,id⟩ := submitted.id
    refine .inr ⟨d,r.released d,?_⟩
    refine {
      defined := by rw [moves.workflow,submitted.workflow]; exact submitted.defined
      nonempty := submitted.nonempty,absent := submitted.absent
      id := by change '/' ∉ r.id.toList; rw [id]; exact Workflow.runID_slash unixNano
      ids := ids.trans submitted.ids,waiting := markQueued_waiting _ _ ?_,runs := ?_,queue := ?_
      definitions := moves.definitions.trans submitted.definitions
      invocations := ?_ }
    · intro s member
      rw [submitted.steps] at member
      obtain ⟨sd,_,rfl⟩ := mem_map.mp member
      rfl
    · intro k
      rw [moves.runs,submitted.runs]
      change (if k = r.key then _ else _) = if k = r.key then _ else _
      split_ifs <;> rfl
    · intro q
      rw [ids]
      by_cases own : ∃ x ∈ (Workflow.readySteps d r).map StepRun.stepID,q = queueKey r.ns r.id x
      · obtain ⟨x,listed,rfl⟩ := own
        obtain ⟨item,entered,ns,runID,stepID,_⟩ := enqueued_present r (env.clock w₀.tick) _ (w₀.item r) x listed
        obtain ⟨s,ready,rfl⟩ := mem_map.mp listed
        refine .inr ⟨s.stepID,mem_map.mpr ⟨s,(mem_filter.mp ready).1,rfl⟩,rfl,item,?_,ns,runID,stepID⟩
        exact (moves.items _).trans entered
      · refine .inl ?_
        rw [← submitted.queue]
        by_cases other : ∃ x,q = queueKey r.ns r.id x
        · obtain ⟨x,rfl⟩ := other
          refine (moves.items x).trans (enqueued_absent r _ _ _ x ?_)
          intro listed
          exact own ⟨x,listed,rfl⟩
        · push Not at other
          exact moves.others q other
    · rw [moves.invocations,submitted.invocations,append_nil]

section Entered

variable {w w' : World} {d : WorkflowDefinition} {r : Run} (entered : Entered w w' d r) (k : String)

include entered

lemma Entered.shape : w'.shape k = if k = r.key then some r.shape else w.shape k := by
  rw [World.shape,entered.runs]
  split_ifs <;> rfl

lemma Entered.grows (shape : Shape) (known : w.shape k = some shape) : w'.shape k = some shape := by
  rw [entered.shape,if_neg]
  · exact known
  · intro same
    rw [same,World.shape,entered.absent] at known
    cases known

end Entered

variable {threads : List Call.Thread}

lemma mem_set_of_mem {old new : Call.Thread}
    (found : threads[i]? = some old) (member : t ∈ threads) : t = old ∨ t ∈ threads.set i new := by
  obtain ⟨j,here⟩ := mem_iff_getElem?.mp member
  by_cases same : j = i
  · rw [same,found] at here
    exact .inl (Option.some.inj here).symm
  · refine .inr (mem_iff_getElem?.mpr ⟨j,?_⟩)
    rw [getElem?_set_ne (Ne.symm same)]
    exact here

lemma mem_set_self {old new : Call.Thread} (found : threads[i]? = some old) : new ∈ threads.set i new := by
  obtain ⟨bound,_⟩ := List.getElem?_eq_some_iff.mp found
  exact mem_iff_getElem?.mpr ⟨i,getElem?_set_self bound⟩

inductive SystemStep (env : Env) (s : System) : Choice → System → Prop
  | refused (input : RunInput) (w : World) (store : w.store = s.shared.store)
      (invocations : w.invocations = s.shared.invocations) : SystemStep env s (.submit input) ⟨w,s.threads⟩
  | entered (input : RunInput) (w : World) (d : WorkflowDefinition) (r : Run) (entered : Entered s.shared w d r) :
      SystemStep env s (.submit input) ⟨w,s.threads⟩
  | polled (w : World) (leases : List QueueLease) (taken : List QueueItem)
      (dequeued : Dequeued (env.clock s.shared.tick) s.shared w leases taken) :
      SystemStep env s .poll ⟨w,s.threads ++ leases.map (startCall env)⟩
  | idle (i : Nat) : SystemStep env s (.advance i) s
  | acted (i : Nat) (l : Worker) (op : Op) (next : op.Res → M (Except Failure Unit))
      (found : s.threads[i]? = some ⟨l,.call op next⟩) (permitted : l.permitted op)
      (continues : l.credible op (exec env op s.shared).1 →
        (next (exec env op s.shared).1).Obeys Worker.discipline (l.observe op (exec env op s.shared).1)) :
      SystemStep env s (.advance i) (s.acted env i l next)

lemma act_step (env : Env) {s : System} (sane : Sane s) (c : Choice) : SystemStep env s c (act env s c) := by
  cases c with
  | submit input =>
    rcases submit_enters env input s.shared with ⟨store,invocations⟩ | ⟨d,r,entered⟩
    · exact .refused input _ store invocations
    · exact .entered input _ d r entered
  | poll =>
    obtain ⟨w,leases,taken,runs,dequeued⟩ := dequeueLeases_run env s.shared
    simp only [act]
    rw [runs]
    exact .polled w leases taken dequeued
  | advance i =>
    have step : Pool.Step Worker.discipline (exec env) s i (act env s (.advance i)) :=
      Pool.advance_step sane.obeys i
    generalize act env s (.advance i) = s' at step ⊢
    cases step with
    | idle => exact .idle i
    | acts label op next found permitted continues => exact .acted i label op next found permitted continues

lemma SystemStep.sane {env : Env} {s s' : System} {c : Choice} (step : SystemStep env s c s')
    (reliable : env.Reliable) (sane : Sane s) : Sane s' := by
  cases step with
  | refused input w store invocations =>
    have shape : w.shape = s.shared.shape := by
      funext k
      rw [World.shape,World.shape,store]
    have grows : ∀ k known,s.shared.shape k = some known → w.shape k = some known := by
      intro k known here
      rw [shape]
      exact here
    refine ⟨?_,?_,?_,fun t inside => (sane.leases t inside).mono grows,?_,sane.obeys⟩
    · rw [store]
      exact sane.accepting
    · rw [shape,store]
      exact sane.shapes
    · rw [store]
      exact fun q item here => (sane.queue q item here).mono grows
    · rw [shape]
      exact sane.copies
  | entered input w d r entered =>
    have grows := entered.grows
    refine ⟨?_,?_,?_,fun t inside => (sane.leases t inside).mono grows,?_,sane.obeys⟩
    · intro k e stored
      rw [entered.definitions] at stored
      exact sane.accepting k e stored
    · intro k known here
      rw [entered.definitions]
      rw [entered.shape] at here
      split_ifs at here with same
      · cases here
        exact ⟨entered.id,d,entered.defined,entered.ids⟩
      · exact sane.shapes k known here
    · intro q item here
      rcases entered.queue q with same | ⟨x,known,rfl,new,found,ns,runID,stepID⟩
      · rw [same] at here
        exact (sane.queue q item here).mono grows
      · rw [here] at found
        cases found
        refine ⟨r.shape,?_,ns.symm,runID.symm,?_⟩
        · rw [ns,runID,entered.shape]
          exact if_pos rfl
        · rw [stepID]
          exact known
    · intro t inside copy held
      exact grows _ _ (sane.copies t inside copy held)
  | polled w leases taken dequeued => exact sane.poll reliable dequeued
  | idle i => exact sane
  | acted i l op next found permitted continues => exact sane.acts reliable found permitted continues

end Tempest
