import Mathlib.Data.Int.ConditionallyCompleteOrder
import Mathlib.Tactic.Linarith
import Tempest.EngineLaws

/-! Terminal run states. `Cancel` refuses a run that is already terminal, while
`processLease` writes SUCCEEDED or FAILED over whatever state is stored. A
history keeps every terminal state as long as no lease of a terminal run is
processed in it. -/
namespace Tempest.Terminal
open Interaction

/-- Everything that can happen to the store through the engine, one call at a time. -/
inductive Action
  | submit (input : RunInput)
  | cancel (ns : Namespace) (id : String)
  | dequeue
  | processLease (lease : QueueLease)

def perform (env : Env) (w : World) : Action → World
  | .submit input => ((Engine.submit input).run (exec env) w).2
  | .cancel ns id => ((Engine.cancel ns id).run (exec env) w).2
  | .dequeue => ((Engine.dequeueLeases env).run (exec env) w).2
  | .processLease lease => ((Engine.processLease env lease).run (exec env) w).2

def stateAt (w : World) (k : String) : Option RunState := (w.store.runs.lookup k).map Run.state

/-- Whatever part of the history follows the moment at which a run is stored as
terminal leaves its state alone. -/
def Absorbing (env : Env) (w : World) (history : List Action) : Prop :=
  ∀ before middle after, history = before ++ middle ++ after → ∀ k state,
    stateAt (before.foldl (perform env) w) k = some state → state.isTerminal = true →
      stateAt ((before ++ middle).foldl (perform env) w) k = some state

def Unfinished (w : World) : Action → Prop
  | .processLease lease =>
    ∀ run, w.store.getRun lease.item.ns lease.item.runID = .ok run → run.state.isTerminal = false
  | _ => True

variable (env : Env)

lemma stateAt_spared {k q : String} {w w' : World} (spared : Engine.Spared k q w w') : stateAt w' k = stateAt w k := by
  rw [stateAt,spared.runs]
  rfl

lemma submit_spares (input : RunInput) (w : World) (k : String) (state : RunState)
    (stored : stateAt w k = some state) : stateAt (perform env w (.submit input)) k = some state := by
  simp only [perform]
  rcases Engine.submit_run env input w with ⟨e,w',refused,same,_⟩ | ⟨d,run,now,w',created,continues⟩
  · rw [refused]
    simpa [stateAt,same] using stored
  · have different : k ≠ run.key := by
      intro same
      rw [stateAt,same,created.absent] at stored
      cases stored
    have kept : stateAt w' k = some state := by
      simpa [stateAt,created.store,Filing.Table.lookup_insert,different] using stored
    have uses : (Engine.enqueueReadySteps d run >>= Engine.announce now d run).Uses (Op.OnRun run.key "") := by
      refine (Engine.enqueueReadySteps_uses run "" d).bind fun enqueued => ?_
      cases enqueued with
      | error e => exact trivial
      | ok _ => exact ⟨trivial,fun _ => trivial⟩
    rw [continues,stateAt_spared (Engine.run_spared env uses different.symm w')]
    exact kept

lemma cancel_spares (ns : Namespace) (id : String) (w : World) (k : String)
    (state : RunState) (stored : stateAt w k = some state) (terminal : state.isTerminal = true) :
    stateAt (perform env w (.cancel ns id)) k = some state := by
  simp only [perform,Engine.cancel]
  simp only [Prog.call_bind,Prog.done_bind,Prog.run_call,exec,Store.getRun]
  cases found : w.store.runs.lookup (runKey ns id) with
  | none => exact stored
  | some run =>
    dsimp only
    split_ifs with finished
    · exact stored
    · have different : run.key ≠ k := by
        intro same
        have here : w.store.runs.lookup k = some run := by
          rw [← same,w.store.runs.lookup_key found,found]
        rw [stateAt,here,Option.map_some,Option.some.injEq] at stored
        exact finished (stored ▸ terminal)
      exact (stateAt_spared (Engine.run_spared env (Engine.finishRun_uses run "" .cancelled "") different w.advance)).trans stored

lemma processLease_spares (lease : QueueLease) (w : World) (k : String) (state : RunState)
    (unfinished : Unfinished w (.processLease lease)) (stored : stateAt w k = some state)
    (terminal : state.isTerminal = true) : stateAt (perform env w (.processLease lease)) k = some state := by
  have different : runKey lease.item.ns lease.item.runID ≠ k := by
    intro same
    unfold stateAt at stored
    cases found : w.store.runs.lookup k with
    | none => simp [found] at stored
    | some run =>
      have running := unfinished run (by simp [Store.getRun,same,found])
      simp only [found,Option.map_some,Option.some.injEq] at stored
      rw [stored,terminal] at running
      cases running
  exact (stateAt_spared (Engine.processLease_spared env w lease different)).trans stored

lemma perform_spares (w : World) (action : Action) (unfinished : Unfinished w action)
    (k : String) (state : RunState) (stored : stateAt w k = some state)
    (terminal : state.isTerminal = true) : stateAt (perform env w action) k = some state := by
  cases action with
  | submit input => exact submit_spares env input w k state stored
  | cancel ns id => exact cancel_spares env ns id w k state stored terminal
  | dequeue => exact stored
  | processLease lease => exact processLease_spares env lease w k state unfinished stored terminal

/-- In a history in which a lease is processed only while its run is not
terminal, terminal states are absorbing. -/
theorem terminal_absorbing (env : Env) (w : World) (history : List Action)
    (unfinished : Along (perform env) Unfinished w history) : Absorbing env w history := by
  intro before middle after split k state stored terminal
  subst split
  rw [List.append_assoc,Along.append] at unfinished
  have along := (Along.append.mp unfinished.2).1
  rw [List.foldl_append]
  refine Along.invariant (P := fun w => stateAt w k = some state) ?_ stored along
  intro w action holds admitted
  exact perform_spares env w action admitted k state holds terminal

/-! A run that is cancelled between the dequeue and the processing of its lease. -/

def passDefinition : WorkflowDefinition where
  id := ⟨"default","single",1⟩
  steps := [{ id := "a", handler := "pass" }]

def passWorld : World := .holding passDefinition

def passLease : QueueLease where
  item := {
    runID := ":2", ns := "default", stepID := "a", enqueuedAt := 5, visibleAt := 10 + Store.visibility
    attempt := 2 }
  token := "lease-0"

/-- The run ends with the third action; the others come after it. -/
def passHistory : List Action :=
  [.submit { workflow := passDefinition.id },.dequeue,.processLease passLease,.cancel "default" ":2",
    .submit { workflow := passDefinition.id },.dequeue]

def cancelledHistory : List Action :=
  [.submit { workflow := passDefinition.id },.dequeue,.cancel "default" ":2",.processLease passLease]

theorem pass_absorbing :
    Along (perform .steady) Unfinished passWorld passHistory ∧
      stateAt ((passHistory.take 3).foldl (perform .steady) passWorld) "default/:2" = some .succeeded ∧
      Absorbing .steady passWorld passHistory := by
  have unfinished : Along (perform .steady) Unfinished passWorld passHistory := by
    refine ⟨trivial,trivial,?_,trivial,trivial,trivial,trivial⟩
    intro run found
    cases found
    rfl
  exact ⟨unfinished,by decide,terminal_absorbing _ _ _ unfinished⟩

/-- The lease is the one that was dequeued, the clock never goes back, and the
cancelled run ends as SUCCEEDED. -/
theorem cancelled_succeeds :
    Monotone Env.steady.clock ∧
      ((Engine.dequeueLeases .steady).run (exec .steady)
        (perform .steady passWorld (.submit { workflow := passDefinition.id }))).1 = [passLease] ∧
      stateAt ((cancelledHistory.take 3).foldl (perform .steady) passWorld) "default/:2" = some .cancelled ∧
      stateAt (cancelledHistory.foldl (perform .steady) passWorld) "default/:2" = some .succeeded ∧
      ¬ Absorbing .steady passWorld cancelledHistory := by
  have cancelled :
      stateAt ((cancelledHistory.take 3).foldl (perform .steady) passWorld) "default/:2" = some .cancelled := by
    decide
  have succeeded :
      stateAt (cancelledHistory.foldl (perform .steady) passWorld) "default/:2" = some .succeeded := by
    decide
  refine ⟨fun m n le => Int.ofNat_le.mpr le,by decide,cancelled,succeeded,?_⟩
  intro absorbing
  have kept := absorbing (cancelledHistory.take 3) (cancelledHistory.drop 3) [] (by rfl) _ _ cancelled rfl
  rw [List.take_append_drop] at kept
  cases kept

end Tempest.Terminal
