import Tempest.EngineLaws

/-! What `DequeueAny` hands out: some of the visible items, each once, in the
order of the iteration. An item that is handed out stays in the queue under its
key, later visible and with one more attempt. -/
open List
namespace Tempest
open Filing

def QueueItem.address (item : QueueItem) : Namespace × String × String := (item.ns,item.runID,item.stepID)

lemma found_before {now before : Option QueueItem} {item : QueueItem}
    (same : now.map QueueItem.address = before.map QueueItem.address) (found : now = some item) :
    ∃ old,before = some old ∧ old.ns = item.ns ∧ old.runID = item.runID ∧ old.stepID = item.stepID := by
  rw [found] at same
  obtain ⟨old,before,fields⟩ := Option.map_eq_some_iff.mp same.symm
  exact ⟨old,before,by simpa [QueueItem.address] using fields⟩

namespace Store

@[simp] lemma lease_key (now : Time) (item : QueueItem) : (lease now item).key = item.key := rfl

def Leased (now : Time) (taken : List QueueItem) (queue queue' : Table QueueItem.key) : Prop :=
  ∀ q, queue'.lookup q = ((taken.find? (fun item => item.key = q)).map (lease now)).or (queue.lookup q)

structure Taken (now : Time) (items taken : List QueueItem) : Prop where
  inside : taken.Sublist items
  visible : ∀ item ∈ taken, item.visibleAt < now

variable (token : Nat → String) (s : Store) (limit : Int) (order : List String)

lemma dequeueLoop_taken (now : Time) (items : List QueueItem)
    (queue : Table QueueItem.key) (out : List QueueLease) (distinct : (items.map QueueItem.key).Nodup) :
    ∃ taken,Taken now items taken ∧ ((dequeueLoop token limit now items queue out).1.map QueueLease.item =
        out.map QueueLease.item ++ taken.map (lease now)) ∧
      Leased now taken queue (dequeueLoop token limit now items queue out).2 := by
  induction items generalizing queue out with
  | nil =>
    refine ⟨[],⟨List.Sublist.refl [],by simp⟩,?_,?_⟩
    · simp [dequeueLoop]
    · intro q
      simp [dequeueLoop]
  | cons item rest ih =>
    simp only [map_cons,nodup_cons] at distinct
    unfold dequeueLoop
    dsimp only
    split_ifs with visible _
    · refine ⟨[item],⟨by simp,by simpa using visible⟩,by simp,?_⟩
      intro q
      rw [Table.lookup_insert]
      by_cases same : item.key = q
      · simp [same]
      · simp [same,Ne.symm same]
    · obtain ⟨taken,picked,leases,queues⟩ :=
        ih (queue.insert (lease now item)) (out ++ [⟨lease now item,token out.length⟩]) distinct.2
      refine ⟨item :: taken,⟨picked.inside.cons_cons item,?_⟩,?_,?_⟩
      · intro other member
        rcases mem_cons.mp member with rfl | inside
        · exact visible
        · exact picked.visible other inside
      · rw [leases]
        simp
      · intro q
        rw [queues,Table.lookup_insert]
        by_cases same : item.key = q
        · have absent : taken.find? (fun other => other.key = q) = none := by
            rw [find?_eq_none]
            intro other member equal
            have known := picked.inside.subset member
            exact distinct.1 (mem_map.mpr ⟨other,known,by simpa [same] using equal⟩)
          simp [same,absent]
        · simp [same,Ne.symm same]
    · obtain ⟨taken,picked,leases,queues⟩ := ih queue out distinct.2
      exact ⟨taken,⟨picked.inside.cons item,picked.visible⟩,leases,queues⟩

lemma dequeueLoop_tokens (now : Time) (items : List QueueItem)
    (queue : Table QueueItem.key) (out : List QueueLease)
    (numbered : out.map QueueLease.token = (List.range out.length).map token) :
    (dequeueLoop token limit now items queue out).1.map QueueLease.token =
      (List.range (dequeueLoop token limit now items queue out).1.length).map token := by
  induction items generalizing queue out with
  | nil => exact numbered
  | cons item rest ih =>
    let new : List QueueLease := out ++ [⟨lease now item,token out.length⟩]
    have next : new.map QueueLease.token = (List.range new.length).map token := by
      simp [new,numbered,range_succ]
    unfold dequeueLoop
    dsimp only
    split_ifs
    · exact next
    · exact ih _ _ next
    · exact ih _ _ numbered

/-- What `Dequeue` and `DequeueAny` do: the leases are for items that were visible and
now stand in the queue as the leases have them, and the other items stay as they were. -/
structure HandedOut (now : Time) (queue queue' : Table QueueItem.key) (leases : List QueueLease) (taken : List QueueItem) :
    Prop where
  stored : ∀ item ∈ taken, queue.lookup item.key = some item
  visible : ∀ item ∈ taken, item.visibleAt < now
  distinct : (taken.map QueueItem.key).Nodup
  items : leases.map QueueLease.item = taken.map (lease now)
  queue : Leased now taken queue queue'

lemma dequeueAny_handedOut (now : Time) : ∃ taken,
    HandedOut now s.queue (s.dequeueAny order token limit now).2.queue (s.dequeueAny order token limit now).1 taken := by
  have distinct : ((s.queue.range order).map QueueItem.key).Nodup :=
    ((s.queue.range_perm order).map _).nodup_iff.mpr s.queue.distinct
  obtain ⟨taken,picked,leases,queues⟩ := dequeueLoop_taken token limit now _ s.queue [] distinct
  refine ⟨taken,?_,picked.visible,distinct.sublist (picked.inside.map _),leases,queues⟩
  intro item member
  exact s.queue.lookup_of_mem ((s.queue.mem_range _ _).mp (picked.inside.subset member))

namespace HandedOut

variable {now : Time} {queue queue' : Table QueueItem.key} {leases : List QueueLease} {taken : List QueueItem}
  (handed : HandedOut now queue queue' leases taken)
include handed

lemma origin (l : QueueLease) (member : l ∈ leases) : ∃ item ∈ taken,l.item = lease now item := by
  have inside : l.item ∈ taken.map (lease now) := by
    rw [← handed.items]
    exact mem_map.mpr ⟨l,member,rfl⟩
  obtain ⟨item,picked,same⟩ := mem_map.mp inside
  exact ⟨item,picked,same.symm⟩

lemma seen (l : QueueLease) (member : l ∈ leases) :
    ∃ item,queue.lookup l.item.key = some item ∧ item.visibleAt < now ∧ l.item = lease now item := by
  obtain ⟨item,picked,same⟩ := handed.origin l member
  exact ⟨item,by rw [same]; exact handed.stored item picked,handed.visible item picked,same⟩

lemma leased (l : QueueLease) (member : l ∈ leases) : queue'.lookup l.item.key = some l.item := by
  obtain ⟨item,picked,same⟩ := handed.origin l member
  have search : taken.find? (fun other => other.key = item.key) = some item :=
    Table.lookup_of_mem (⟨taken,handed.distinct⟩) picked
  rw [same,lease_key,handed.queue,search]
  rfl

lemma lease_keys : (leases.map (fun lease => lease.item.key)).Nodup := by
  have keys : leases.map (fun lease => lease.item.key) = taken.map QueueItem.key := by
    have items := congrArg (List.map QueueItem.key) handed.items
    rw [map_map,map_map] at items
    exact items
  rw [keys]
  exact handed.distinct

lemma others (q : String) (different : ∀ l ∈ leases,l.item.key ≠ q) : queue'.lookup q = queue.lookup q := by
  have absent : taken.find? (fun item => item.key = q) = none := by
    rw [find?_eq_none]
    intro item found same
    have listed : lease now item ∈ leases.map QueueLease.item := by
      rw [handed.items]
      exact mem_map.mpr ⟨item,found,rfl⟩
    obtain ⟨l,member,equal⟩ := mem_map.mp listed
    apply different l member
    rw [equal]
    simpa using same
  rw [handed.queue,absent]
  rfl

lemma lookup_same (q : String) : (queue'.lookup q).map QueueItem.address = (queue.lookup q).map QueueItem.address := by
  rw [handed.queue]
  cases found : taken.find? (fun item => item.key = q) with
  | none => rfl
  | some item =>
    have key : item.key = q := by simpa using find?_some found
    rw [← key,handed.stored item (mem_of_find?_eq_some found)]
    rfl

end HandedOut

end Store

/-- The outcome of `dequeueLeases`. -/
structure Dequeued (now : Time) (w w' : World) (leases : List QueueLease) (taken : List QueueItem) : Prop extends
    Store.HandedOut now w.store.queue w'.store.queue leases taken where
  runs : w'.store.runs = w.store.runs
  definitions : w'.store.definitions = w.store.definitions
  invocations : w'.invocations = w.invocations
  ticks : w.tick ≤ w'.tick

lemma dequeueLeases_run (env : Env) (w : World) :
    ∃ w' leases taken,(Engine.dequeueLeases env).run (exec env) w = (leases,w') ∧
      Dequeued (env.clock w.tick) w w' leases taken := by
  obtain ⟨taken,handed⟩ :=
    w.store.dequeueAny_handedOut (env.token (w.tick + 1)) env.maxDequeue (env.order (w.tick + 1)) (env.clock w.tick)
  exact ⟨_,_,taken,rfl,handed,rfl,rfl,rfl,Nat.le_add_right w.tick 2⟩

lemma dequeueLeases_first (env : Env) (w : World) {front back : List String} {k : String} {item : QueueItem}
    (single : env.maxDequeue = 1) (order : env.order (w.tick + 1) = front ++ k :: back)
    (distinct : (front ++ k :: back).Nodup) (absent : ∀ other ∈ front,w.store.queue.lookup other = none)
    (found : w.store.queue.lookup k = some item) (visible : item.visibleAt < env.clock w.tick) :
    (Engine.dequeueLeases env).run (exec env) w =
      ([⟨Store.lease (env.clock w.tick) item,env.token (w.tick + 1) 0⟩],{
        w with
        store := { w.store with queue := w.store.queue.insert (Store.lease (env.clock w.tick) item) }
        tick := w.tick + 2 }) := by
  obtain ⟨rest,first⟩ := w.store.queue.range_first distinct absent found
  have picked : w.store.dequeueAny (env.order (w.tick + 1)) (env.token (w.tick + 1)) env.maxDequeue (env.clock w.tick) =
      ([⟨Store.lease (env.clock w.tick) item,env.token (w.tick + 1) 0⟩],
        { w.store with queue := w.store.queue.insert (Store.lease (env.clock w.tick) item) }) := by
    rw [Store.dequeueAny,order,first,Store.dequeueLoop,if_pos visible,single]
    rfl
  exact congrArg (fun answer : List QueueLease × Store =>
    (answer.1,{ w with store := answer.2,tick := w.tick + 2 })) picked

end Tempest
