import Tempest.Concurrent

/-! How often a handler runs when workers overlap. A lease protects its step as
long as it is held in time; what can still hand a step out twice is a call that
enqueues it again from an outdated copy of the run. -/
namespace Tempest.AtMostOnce
open Interaction Filing Engine List

def leaseKey (t : Call.Thread) : String := t.label.lease.item.key

def Timely (env : Env) (s : System) (_ : Choice) : Prop :=
  ∀ t ∈ s.threads, t.label.holds = true → env.clock s.shared.tick ≤ t.label.lease.item.visibleAt

def UnleasedOp (s : System) : Op → Prop
  | .enqueue item => ∀ t ∈ s.threads, leaseKey t ≠ item.key
  | _ => True

def Unleased (s : System) : Choice → Prop
  | .advance i => ∀ upcoming ∈ s.upcoming i, UnleasedOp s upcoming.2
  | .submit _ | .poll => True

instance (env : Env) (s : System) (c : Choice) : Decidable (Timely env s c) := by
  unfold Timely
  infer_instance

instance (s : System) (op : Op) : Decidable (UnleasedOp s op) := by
  unfold UnleasedOp
  cases op <;> infer_instance

instance (s : System) (c : Choice) : Decidable (Unleased s c) := by
  unfold Unleased
  cases c <;> infer_instance

def executions (w : World) (ns : Namespace) (runID stepID : String) : Nat :=
  w.invocations.countP (fun call => call.ns = ns ∧ call.runID = runID ∧ call.stepID = stepID)

/-- Each step is leased to one call at most, whose item is in the queue only while
the lease is held; every execution is one of such a call. -/
structure Single (s : System) : Prop where
  distinct : (s.threads.map leaseKey).Nodup
  held : ∀ t ∈ s.threads, ∀ item, s.shared.store.queue.lookup (leaseKey t) = some item →
    t.label.holds = true ∧ item.visibleAt = t.label.lease.item.visibleAt
  ran : ∀ call ∈ s.shared.invocations, ∃ t ∈ s.threads, t.label.stage ≠ .leased ∧
    queueKey call.ns call.runID call.stepID = leaseKey t
  once : ∀ ns runID stepID, executions s.shared ns runID stepID ≤ 1

lemma fresh_single {w : World} (fresh : Fresh w) : Single ⟨w,[]⟩ := by
  refine ⟨nodup_nil,by simp,?_,?_⟩
  · intro call inside
    rw [fresh.invocations] at inside
    cases inside
  · intro ns runID stepID
    change w.invocations.countP _ ≤ 1
    rw [fresh.invocations]
    simp

lemma set_leaseKeys {threads : List Call.Thread} {i : Nat} {old new : Call.Thread}
    (found : threads[i]? = some old) (same : leaseKey new = leaseKey old) :
    (threads.set i new).map leaseKey = threads.map leaseKey := by
  rw [map_set]
  apply ext_getElem?
  intro j
  by_cases here : i = j
  · subst here
    obtain ⟨bound,_⟩ := List.getElem?_eq_some_iff.mp found
    rw [getElem?_set_self (by simpa using bound),getElem?_map,found,same]
    rfl
  · rw [getElem?_set_ne here]

section Worker

variable {l : Worker} {op : Op} (answer : op.Res)

lemma observe_holds (permitted : l.permitted op) (holds : l.holds = true)
    (keeps : ∀ ns runID stepID token,op ≠ .completeStep ns runID stepID token) :
    (l.observe op answer).holds = true := by
  cases op with
  | completeStep ns runID stepID token => exact absurd rfl (keeps ns runID stepID token)
  | updateRunState ns id target stamp =>
    simp [Worker.holds,permitted.1] at holds
  | updateStepState ns id step =>
    have busy : l.stage ≠ .completed := by
      intro stage
      simp [Worker.holds,stage] at holds
    simpa [Worker.observe,Worker.wrote,busy,Worker.holds] using holds
  | getRun ns id => cases answer <;> exact holds
  | execute handler run handle => rfl
  | _ => exact holds

lemma observe_left (left : l.stage ≠ .leased) : (l.observe op answer).stage ≠ .leased := by
  cases op with
  | updateStepState ns id step =>
    simp only [Worker.observe,Worker.wrote]
    split_ifs <;> simp [left]
  | getRun ns id => cases answer <;> exact left
  | execute handler run handle
  | completeStep ns runID stepID token
  | updateRunState ns id target stamp => exact fun wrong => by cases wrong
  | _ => exact left

end Worker

section Acted

variable {env : Env} {s : System} {i : Nat} {l : Worker} {op : Op} {next : op.Res → M (Except Failure Unit)}
  (single : Single s) (found : s.threads[i]? = some ⟨l,.call op next⟩) (permitted : l.permitted op)

include single found permitted

lemma held_acted (unleased : Unleased s (.advance i)) :
    ∀ t ∈ (s.acted env i l next).threads,∀ item,
      (exec env op s.shared).2.store.queue.lookup (leaseKey t) = some item →
        t.label.holds = true ∧ item.visibleAt = t.label.lease.item.visibleAt := by
  have member := mem_of_getElem? found
  have mine : leaseKey ⟨l.observe op (exec env op s.shared).1,next (exec env op s.shared).1⟩ =
      leaseKey ⟨l,.call op next⟩ := by
    unfold leaseKey
    rw [Worker.observe_lease]
  have before : ∀ t ∈ s.threads,∀ item,(exec env op s.shared).2.store.queue.lookup (leaseKey t) = some item →
      s.shared.store.queue.lookup (leaseKey t) = some item := by
    intro t inside item here
    cases op with
    | enqueue entered =>
      have fresh := unleased _ (Pool.upcoming_of_found found) t inside
      rw [exec_enqueue_lookup,if_neg fresh] at here
      exact here
    | completeStep ns runID stepID token =>
      rw [exec_completeStep_lookup] at here
      split_ifs at here
      exact here
    | dequeueAny limit now => exact permitted.elim
    | _ =>
      rw [exec_queue env s.shared _ rfl] at here
      exact here
  intro t inside item here
  rcases mem_or_eq_of_mem_set inside with old | rfl
  · exact single.held t old item (before t old item here)
  · rw [mine] at here
    obtain ⟨holds,visible⟩ := single.held _ member item (before _ member item here)
    rw [Worker.observe_lease]
    refine ⟨observe_holds _ permitted holds ?_,visible⟩
    intro ns runID stepID token same
    subst same
    obtain ⟨_,rfl,rfl,rfl⟩ := permitted
    have own : leaseKey ⟨l,.call (.completeStep l.lease.item.ns l.lease.item.runID l.lease.item.stepID token) next⟩ =
        queueKey l.lease.item.ns l.lease.item.runID l.lease.item.stepID := rfl
    rw [exec_completeStep_lookup,if_pos own] at here
    cases here

lemma logged_acted : (∀ call ∈ (exec env op s.shared).2.invocations,
      ∃ t ∈ (s.acted env i l next).threads,
        t.label.stage ≠ .leased ∧ queueKey call.ns call.runID call.stepID = leaseKey t) ∧
      ∀ ns runID stepID,executions (exec env op s.shared).2 ns runID stepID ≤ 1 := by
  have kept : ∀ call ∈ s.shared.invocations,
      ∃ t ∈ (s.acted env i l next).threads,
        t.label.stage ≠ .leased ∧ queueKey call.ns call.runID call.stepID = leaseKey t := by
    intro call inside
    obtain ⟨t,member,left,key⟩ := single.ran call inside
    rcases mem_set_of_mem found member with rfl | still
    · refine ⟨_,mem_set_self found,observe_left _ left,?_⟩
      rw [key,leaseKey,leaseKey,Worker.observe_lease]
    · exact ⟨t,still,left,key⟩
  by_cases runs : op.isExecute = true
  · cases op with
    | execute handler run handle =>
      obtain ⟨stage,ns,id,step⟩ := permitted
      have key : queueKey run.ns run.id handle.stepID = leaseKey ⟨l,.call (.execute handler run handle) next⟩ := by
        rw [ns,id,step]
        rfl
      refine ⟨?_,?_⟩
      · intro call inside
        rcases mem_append.mp inside with old | new
        · exact kept call old
        · rw [mem_singleton.mp new]
          refine ⟨_,mem_set_self found,?_,key⟩
          simp [Worker.observe]
      · intro callNs runID stepID
        change (s.shared.invocations ++ [_]).countP _ ≤ 1
        rw [countP_append,countP_singleton]
        split_ifs with matched
        · simp only [decide_eq_true_eq] at matched
          obtain ⟨rfl,rfl,rfl⟩ := matched
          have unlogged : executions s.shared run.ns run.id handle.stepID = 0 := by
            refine countP_eq_zero.mpr ?_
            intro call inside same
            simp only [decide_eq_true_eq] at same
            obtain ⟨t,member,left,owns⟩ := single.ran call inside
            rw [same.1,same.2.1,same.2.2,key] at owns
            have equal := inj_on_of_nodup_map single.distinct (mem_of_getElem? found) member owns
            subst equal
            exact left stage
          unfold executions at unlogged
          omega
        · exact single.once callNs runID stepID
    | _ => cases runs
  · have log := exec_invocations env s.shared op (by simpa using runs)
    unfold executions
    rw [log]
    exact ⟨kept,single.once⟩

end Acted

lemma entered_apart {s : System} {w : World} {d : WorkflowDefinition} {r : Run} (sane : Sane s)
    (entered : Entered s.shared w d r) (t : Call.Thread) (member : t ∈ s.threads) (x : String) (known : x ∈ r.ids) :
    leaseKey t ≠ queueKey r.ns r.id x := by
  intro same
  obtain ⟨shape,stored,_,_,inside⟩ := sane.leases t member
  obtain ⟨_,e,defined,ids⟩ := sane.shapes _ shape stored
  have clean :=
    accepted_ids_slash (sane.accepting.accepted defined) _ (by rw [← ids]; exact inside)
  have clean' :=
    accepted_ids_slash (sane.accepting.accepted entered.defined) x (by rw [← entered.ids]; exact known)
  obtain ⟨key,_⟩ := Text.join_injective "/" _ _ _ _ '/' rfl clean clean' same
  have equal : runKey t.label.lease.item.ns t.label.lease.item.runID = r.key := key
  rw [equal,World.shape,entered.absent] at stored
  cases stored

section Polled

variable {env : Env} {s : System} {w : World} {leases : List QueueLease} {taken : List QueueItem}
  (single : Single s) (timely : Timely env s .poll)
  (dequeued : Dequeued (env.clock s.shared.tick) s.shared w leases taken)

include single timely dequeued

lemma taken_unleased (t : Call.Thread) (member : t ∈ s.threads) (item : QueueItem) (inside : item ∈ taken) :
    item.key ≠ leaseKey t := by
  intro same
  have stored := dequeued.stored item inside
  rw [same] at stored
  obtain ⟨holds,visible⟩ := single.held t member item stored
  have seen := dequeued.visible item inside
  rw [visible] at seen
  exact absurd seen (not_lt.mpr (timely t member holds))

lemma single_polled : Single ⟨w,s.threads ++ leases.map (startCall env)⟩ := by
  have keys : (leases.map (startCall env)).map leaseKey = leases.map (fun lease => lease.item.key) := by
    rw [map_map]
    rfl
  refine ⟨?_,?_,?_,?_⟩
  · rw [map_append,keys]
    refine single.distinct.append dequeued.lease_keys ?_
    intro key old new
    obtain ⟨t,member,rfl⟩ := mem_map.mp old
    obtain ⟨lease,handed,same⟩ := mem_map.mp new
    obtain ⟨item,inside,equal⟩ := dequeued.origin lease handed
    refine taken_unleased single timely dequeued t member item inside ?_
    rw [← same,equal,Store.lease_key]
  · intro t inside item here
    rcases mem_append.mp inside with old | new
    · refine single.held t old item ?_
      rw [dequeued.queue] at here
      cases search : taken.find? (fun item => item.key = leaseKey t) with
      | none =>
        rw [search] at here
        exact here
      | some picked =>
        have same : picked.key = leaseKey t := by simpa using find?_some search
        exact absurd same (taken_unleased single timely dequeued t old picked (mem_of_find?_eq_some search))
    · obtain ⟨lease,handed,rfl⟩ := mem_map.mp new
      have stands := dequeued.leased lease handed
      change w.store.queue.lookup lease.item.key = some item at here
      rw [stands] at here
      cases here
      exact ⟨rfl,rfl⟩
  · intro call inside
    rw [dequeued.invocations] at inside
    obtain ⟨t,member,rest⟩ := single.ran call inside
    exact ⟨t,mem_append_left _ member,rest⟩
  · intro ns runID stepID
    unfold executions
    rw [dequeued.invocations]
    exact single.once ns runID stepID

end Polled

lemma SystemStep.single {env : Env} {s s' : System} {c : Choice} (step : SystemStep env s c s') (sane : Sane s)
    (timely : Timely env s c) (unleased : Unleased s c) (single : Single s) : Single s' := by
  cases step with
  | refused input w store invocations =>
    refine ⟨single.distinct,?_,?_,?_⟩
    · rw [store]
      exact single.held
    · rw [invocations]
      exact single.ran
    · unfold executions
      rw [invocations]
      exact single.once
  | entered input w d r entered =>
    refine ⟨single.distinct,?_,?_,?_⟩
    · intro t inside item here
      rcases entered.queue (leaseKey t) with same | ⟨x,known,own,_⟩
      · change w.store.queue.lookup (leaseKey t) = some item at here
        rw [same] at here
        exact single.held t inside item here
      · exact absurd own (entered_apart sane entered t inside x known)
    · rw [entered.invocations]
      exact single.ran
    · unfold executions
      rw [entered.invocations]
      exact single.once
  | polled w leases taken dequeued => exact single_polled single timely dequeued
  | idle i => exact single
  | acted i l op next found permitted continues =>
    obtain ⟨ran,once⟩ := logged_acted single found permitted
    refine ⟨?_,held_acted single found permitted unleased,ran,once⟩
    rw [set_leaseKeys found (by rw [leaseKey,leaseKey,Worker.observe_lease])]
    exact single.distinct

/-- In every interleaving in which leases are held in time and no call enqueues a
step that was leased before, no handler runs twice for a step of a run. -/
theorem executed_once (env : Env) (reliable : env.Reliable) (w : World) (fresh : Fresh w) (choices : List Choice)
    (timely : Along (act env) (Timely env) ⟨w,[]⟩ choices) (unleased : Along (act env) Unleased ⟨w,[]⟩ choices)
    (ns : Namespace) (runID stepID : String) :
    executions (choices.foldl (act env) ⟨w,[]⟩).shared ns runID stepID ≤ 1 := by
  have kept : Sane (choices.foldl (act env) ⟨w,[]⟩) ∧ Single (choices.foldl (act env) ⟨w,[]⟩) := by
    refine Along.invariant (P := fun s => Sane s ∧ Single s) ?_ ⟨fresh.sane,fresh_single fresh⟩
      (timely.and unleased)
    intro s c ⟨sane,single⟩ ⟨timely,unleased⟩
    have step := act_step env sane c
    exact ⟨step.sane reliable sane,SystemStep.single step sane timely unleased single⟩
  exact kept.2.once ns runID stepID

def forkDefinition : WorkflowDefinition where
  id := ⟨"default","fork",1⟩
  steps := [{ id := "a", handler := "pass" },{ id := "b", handler := "pass" },
    { id := "c", handler := "pass", dependsOn := ["a"] }]

def separate : List Choice :=
  [Choice.submit { workflow := forkDefinition.id },Choice.poll] ++ List.replicate 15 (Choice.advance 0) ++
    List.replicate 15 (Choice.advance 1) ++ [Choice.poll] ++ List.replicate 15 (Choice.advance 2)

theorem separate_once :
    Fresh (.holding forkDefinition) ∧ Along (act .steady) (Timely .steady) ⟨.holding forkDefinition,[]⟩ separate ∧
      Along (act .steady) Unleased ⟨.holding forkDefinition,[]⟩ separate ∧
      ∀ ns runID stepID,
        executions (separate.foldl (act .steady) ⟨.holding forkDefinition,[]⟩).shared ns runID stepID ≤ 1 := by
  have fresh := holding_fresh forkDefinition (by decide)
  have timely : Along (act .steady) (Timely .steady) ⟨.holding forkDefinition,[]⟩ separate := by decide +kernel
  have unleased : Along (act .steady) Unleased ⟨.holding forkDefinition,[]⟩ separate := by decide +kernel
  exact ⟨fresh,timely,unleased,executed_once .steady Env.steady_reliable _ fresh separate timely unleased⟩

/-- The call for `b` fetches the run when `a` is stored as SUCCEEDED and `c` not yet
as QUEUED, and goes on after `c` has run. -/
def overlapping : List Choice :=
  [Choice.submit { workflow := forkDefinition.id },Choice.poll] ++ List.replicate 10 (Choice.advance 1) ++ [Choice.advance 0] ++
    List.replicate 5 (Choice.advance 1) ++ [Choice.poll] ++ List.replicate 13 (Choice.advance 2) ++
    List.replicate 14 (Choice.advance 0) ++ [Choice.poll] ++ List.replicate 7 (Choice.advance 3)

/-- It enqueues `c` again, which is then executed a second time. -/
theorem overlapping_twice :
    Fresh (.holding forkDefinition) ∧ Env.steady.Reliable ∧
      Along (act .steady) (Timely .steady) ⟨.holding forkDefinition,[]⟩ overlapping ∧
      (overlapping.foldl (act .steady) ⟨.holding forkDefinition,[]⟩).shared.invocations.map Invocation.stepID =
        ["a","c","b","c"] := by
  have timely : Along (act .steady) (Timely .steady) ⟨.holding forkDefinition,[]⟩ overlapping := by decide +kernel
  refine ⟨holding_fresh forkDefinition (by decide),Env.steady_reliable,timely,?_⟩
  decide +kernel

end Tempest.AtMostOnce
