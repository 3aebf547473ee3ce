import Tempest.Concurrent

/-! Whether a completed run is noticed. Each call decides on its own copy of the
run whether all steps are done, so the last call to finish must have seen the
others finish; then no completion is lost, in any interleaving. -/
namespace Tempest.LostCompletion
open Interaction Filing Engine

/-- A call that stores its step as SUCCEEDED and thereby makes every stored step of
the run done has a copy of the run in which every other step is done as well. -/
def InformedOp (w : World) (l : Worker) : Op → Prop
  | .updateStepState ns id step =>
    step.state = .succeeded → ∀ r ∈ w.store.runs.lookup (runKey ns id), ∀ copy ∈ l.copy,
      allDone (r.putStep step) = true → allDone (copy.putStep step) = true
  | _ => True

def Informed (s : System) : Choice → Prop
  | .advance i => ∀ upcoming ∈ s.upcoming i, InformedOp s.shared upcoming.1 upcoming.2
  | .submit _ | .poll => True

instance (w : World) (l : Worker) (op : Op) : Decidable (InformedOp w l op) :=
  match op with
  | .updateStepState ns id step =>
    inferInstanceAs (Decidable (step.state = .succeeded → ∀ r ∈ w.store.runs.lookup (runKey ns id), ∀ copy ∈ l.copy,
      allDone (r.putStep step) = true → allDone (copy.putStep step) = true))
  | .now | .timeNow | .createDefinition _ | .getDefinition _ | .getDefinitionByName .. | .createRun _ | .getRun ..
  | .updateRunState .. | .updateRunError .. | .enqueue _ | .dequeueAny .. | .completeStep .. | .lookupTokenByHash _
  | .emit _ | .execute .. => .isTrue trivial

instance (s : System) (c : Choice) : Decidable (Informed s c) :=
  match c with
  | .advance i => inferInstanceAs (Decidable (∀ upcoming ∈ s.upcoming i, InformedOp s.shared upcoming.1 upcoming.2))
  | .submit _ | .poll => .isTrue trivial

def Quiet (s : System) : Prop := ∀ t ∈ s.threads, t.label.copy = none ∨ t.Finished

instance (s : System) : Decidable (Quiet s) := by
  unfold Quiet
  infer_instance

def Promised (s : System) : Prop :=
  ∀ r, s.shared.store.runs.lookup r.key = some r → allDone r = true → r.state = .succeeded ∨
    ∃ t ∈ s.threads, t.label.stage = .promoting ∧ ∃ copy, t.label.copy = some copy ∧ copy.key = r.key

lemma fresh_promised {w : World} (fresh : Fresh w) : Promised ⟨w,[]⟩ := by
  intro r stored
  rw [fresh.runs] at stored
  cases stored

variable {r : Run} {step : StepRun}

lemma entered_undone {w w' : World} {d : WorkflowDefinition} (entered : Entered w w' d r) :
    allDone r = false := by
  have some_ : r.ids ≠ [] := by
    rw [entered.ids]
    simp [entered.nonempty]
  cases steps : r.steps with
  | nil => simp [Run.ids,steps] at some_
  | cons s rest =>
    have undone := entered.waiting s (by rw [steps]; simp)
    simp [allDone,steps,undone]

lemma modifyStep_inserts (step : StepRun) (steps : List StepRun) (member : step.stepID ∈ steps.map StepRun.stepID) :
    step ∈ modifyStep step.stepID (fun _ => step) steps := by
  induction steps with
  | nil => cases member
  | cons s rest ih =>
    unfold modifyStep
    split_ifs with same
    · simp
    · rcases List.mem_cons.mp member with here | inside
      · exact absurd here.symm same
      · exact List.mem_cons_of_mem _ (ih inside)

lemma putStep_done (member : step.stepID ∈ r.ids)
    (done : allDone (r.putStep step) = true) : step.state.isDone = true := by
  unfold allDone Run.putStep at done
  rw [replaceStep_eq] at done
  exact List.all_eq_true.mp done step (modifyStep_inserts step r.steps member)

lemma marks_done {stage : Stage} {state : StepState} (marks : stage.marks = some state)
    (done : state.isDone = true) : stage = .completed ∧ state = .succeeded := by
  cases stage with
  | completed => exact ⟨rfl,(Option.some.inj marks).symm⟩
  | leased | enqueueing => cases marks; cases done
  | executed | promoting | settled => cases marks

section Acted

variable {env : Env} {s : System} {i : Nat} {l : Worker} {op : Op} {next : op.Res → M (Except Failure Unit)}
  (sane : Sane s) (promised : Promised s) (found : s.threads[i]? = some ⟨l,.call op next⟩)

include promised found

lemma promised_quiet (runs : op.touchesRuns = false)
    (still : l.stage = .promoting → l.observe op (exec env op s.shared).1 = l) :
    Promised (s.acted env i l next) := by
  intro r stored done
  rw [exec_runs env s.shared op runs] at stored
  rcases promised r stored done with already | ⟨t,member,stage,copy⟩
  · exact .inl already
  · refine .inr ?_
    rcases mem_set_of_mem found member with rfl | inside
    · refine ⟨_,mem_set_self found,?_⟩
      rw [still stage]
      exact ⟨stage,copy⟩
    · exact ⟨t,inside,stage,copy⟩

variable {ns : Namespace} {id : String}

lemma promised_succeeded {target : RunState} {stamp : Time}
    (same : op = .updateRunState ns id target stamp) (permitted : l.permitted op) :
    Promised (s.acted env i l next) := by
  subst same
  obtain ⟨_,rfl,own,held,rfl,rfl⟩ := permitted
  intro r stored done
  rw [exec_updateRunState_lookup] at stored
  split_ifs at stored with here
  · obtain ⟨before,_,rfl⟩ := Option.map_eq_some_iff.mp stored
    exact .inl (Store.withState_state _ _ _)
  · rcases promised r stored done with already | ⟨t,member,stage,copy,held',key⟩
    · exact .inl already
    · rcases mem_set_of_mem found member with rfl | inside
      · dsimp only at held'
        rw [held] at held'
        cases held'
        exact absurd key.symm here
      · exact .inr ⟨t,inside,stage,copy,held',key⟩

include sane

lemma promised_marked (same : op = .updateStepState ns id step) (permitted : l.permitted op) (informed : Informed s (.advance i)) :
    Promised (s.acted env i l next) := by
  subst same
  have known := sane.copies _ (List.mem_of_getElem? found)
  obtain ⟨marks,own,held,rfl,rfl,inside⟩ := permitted
  have busy : l.stage ≠ .promoting := by
    intro stage
    rw [stage] at marks
    cases marks
  intro r stored done
  rw [exec_updateStepState_lookup] at stored
  split_ifs at stored with here
  · -- the run of this call: only a SUCCEEDED can complete it, and then the copy is complete too
    obtain ⟨before,kept,rfl⟩ := Option.map_eq_some_iff.mp stored
    rw [here] at kept
    have shape := known own held
    rw [World.shape,Run.key,kept] at shape
    have ids : before.ids = own.ids := congrArg Shape.ids (Option.some.inj shape)
    obtain ⟨stage,state⟩ := marks_done marks (putStep_done (ids ▸ inside) done)
    have complete := informed _ (Pool.upcoming_of_found found) state before kept own held done
    have promotes : l.observe (.updateStepState own.ns own.id step)
        (exec env (.updateStepState own.ns own.id step) s.shared).1 =
          { l with copy := some (own.putStep step),stage := .promoting } := by
      simp only [Worker.observe,Worker.wrote,held,Option.map_some,stage,if_true,Option.any_some,complete]
    refine .inr ⟨_,mem_set_self found,?_⟩
    rw [promotes]
    refine ⟨rfl,own.putStep step,rfl,?_⟩
    exact here.symm
  · rcases promised r stored done with already | ⟨t,member,stage,copy⟩
    · exact .inl already
    · rcases mem_set_of_mem found member with rfl | still
      · exact absurd stage busy
      · exact .inr ⟨t,still,stage,copy⟩

end Acted

lemma SystemStep.promised {env : Env} {s s' : System} {c : Choice} (step : SystemStep env s c s') (sane : Sane s)
    (informed : Informed s c) (promised : Promised s) : Promised s' := by
  cases step with
  | refused input w store invocations =>
    unfold Promised
    rw [store]
    exact promised
  | entered input w d r entered =>
    intro other stored done
    rw [entered.runs] at stored
    split_ifs at stored
    · cases stored
      rw [entered_undone entered] at done
      cases done
    · exact promised other stored done
  | polled w leases taken dequeued =>
    intro r stored done
    rw [dequeued.runs] at stored
    rcases promised r stored done with already | ⟨t,member,rest⟩
    · exact .inl already
    · exact .inr ⟨t,List.mem_append_left _ member,rest⟩
  | idle i => exact promised
  | acted i l op next found permitted continues =>
    cases op with
    | now | emit ev => exact promised_quiet promised found rfl (fun _ => rfl)
    | getRun ns id =>
      refine promised_quiet promised found rfl (fun stage => ?_)
      rw [permitted.1] at stage
      cases stage
    | getDefinition id => exact promised_quiet promised found rfl (fun _ => rfl)
    | execute handler run handle | completeStep ns runID stepID token =>
      refine promised_quiet promised found rfl (fun stage => ?_)
      rw [permitted.1] at stage
      cases stage
    | enqueue item => exact promised_quiet promised found rfl (fun _ => rfl)
    | updateRunState ns id target stamp => exact promised_succeeded promised found rfl permitted
    | updateStepState ns id step => exact promised_marked sane promised found rfl permitted informed
    | _ => exact permitted.elim

/-- In every interleaving in which the last call to finish knows that it is the
last, a run whose steps are all done is SUCCEEDED as soon as no call is in progress. -/
theorem completion_kept (env : Env) (reliable : env.Reliable) (w : World) (fresh : Fresh w) (choices : List Choice)
    (informed : Along (act env) Informed ⟨w,[]⟩ choices) (quiet : Quiet (choices.foldl (act env) ⟨w,[]⟩)) :
    ∀ r, (choices.foldl (act env) ⟨w,[]⟩).shared.store.runs.lookup r.key = some r → allDone r = true →
      r.state = .succeeded := by
  have kept : Sane (choices.foldl (act env) ⟨w,[]⟩) ∧ Promised (choices.foldl (act env) ⟨w,[]⟩) := by
    refine Along.invariant (P := fun s => Sane s ∧ Promised s) ?_ ⟨fresh.sane,fresh_promised fresh⟩ informed
    intro s c ⟨sane,promised⟩ informed
    have step := act_step env sane c
    exact ⟨step.sane reliable sane,SystemStep.promised step sane informed promised⟩
  intro r stored done
  rcases kept.2 r stored done with already | ⟨t,member,stage,copy,held,_⟩
  · exact already
  · rcases quiet t member with unstarted | ⟨value,finished⟩
    · rw [unstarted] at held
      cases held
    · have obeys := kept.1.obeys t member
      rw [Thread.Obeys,finished] at obeys
      exact absurd stage obeys

def forkDefinition : WorkflowDefinition where
  id := ⟨"default","fork",1⟩
  steps := [{ id := "a", handler := "pass" },{ id := "b", handler := "pass" }]

def separate : List Choice :=
  [Choice.submit { workflow := forkDefinition.id },Choice.poll] ++ List.replicate 14 (Choice.advance 0) ++
    List.replicate 14 (Choice.advance 1)

theorem separate_kept :
    Fresh (.holding forkDefinition) ∧ Along (act .steady) Informed ⟨.holding forkDefinition,[]⟩ separate ∧
      Quiet (separate.foldl (act .steady) ⟨.holding forkDefinition,[]⟩) ∧
      ∀ r, (separate.foldl (act .steady) ⟨.holding forkDefinition,[]⟩).shared.store.runs.lookup r.key = some r →
        allDone r = true → r.state = .succeeded := by
  have fresh := holding_fresh forkDefinition (by decide)
  have informed : Along (act .steady) Informed ⟨.holding forkDefinition,[]⟩ separate := by decide
  have quiet : Quiet (separate.foldl (act .steady) ⟨.holding forkDefinition,[]⟩) := by decide
  exact ⟨fresh,informed,quiet,completion_kept .steady Env.steady_reliable _ fresh separate informed quiet⟩

def overlapping : List Choice :=
  [Choice.submit { workflow := forkDefinition.id },Choice.poll,Choice.advance 0,Choice.advance 1] ++
    List.replicate 12 (Choice.advance 0) ++ List.replicate 12 (Choice.advance 1)

/-- Every step is SUCCEEDED, no call is in progress, and the run stays QUEUED. -/
theorem overlapping_lost :
    Fresh (.holding forkDefinition) ∧ Env.steady.Reliable ∧
      Quiet (overlapping.foldl (act .steady) ⟨.holding forkDefinition,[]⟩) ∧
      (overlapping.foldl (act .steady) ⟨.holding forkDefinition,[]⟩).shared.store.runs.rows.map
        (fun r => (r.steps.map StepRun.state,r.state)) = [([.succeeded,.succeeded],.queued)] := by
  refine ⟨holding_fresh forkDefinition (by decide),Env.steady_reliable,by decide,by decide⟩

end Tempest.LostCompletion
