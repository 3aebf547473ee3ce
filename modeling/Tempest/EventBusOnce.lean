import Mathlib.Algebra.Order.BigOperators.Group.List
import Mathlib.Algebra.Order.Group.Nat
import Mathlib.Algebra.Ring.Nat
import Tempest.EventBus

/-! No message is lost in a clean run of the bus. For a message and an audience the copies are
counted over all the places where the message can stand: the queue of the bus, the workers, the
queues and the running handlers of the audience's subscriptions, and the deliveries that have
come to an end. A clean step keeps the count at one for everything the message is due. -/
open List
namespace Tempest.EventBus
open Interaction

variable {α : Type} {l : List α}

lemma sum_map_set {i : Nat} {old : α} (found : l[i]? = some old) (f : α → Nat) (x : α) :
    ((l.set i x).map f).sum + f old = (l.map f).sum + f x := by
  induction l generalizing i with
  | nil => simp at found
  | cons first rest ih =>
    cases i with
    | zero =>
      have same : first = old := by simpa using found
      simp [same,Nat.add_comm,Nat.add_left_comm]
    | succ i =>
      have later := ih (i := i) (by simpa using found)
      simp only [set_cons_succ,map_cons,sum_cons]
      omega

lemma forall_mem_set {P : α → Prop} (all : ∀ y ∈ l,P y) (i : Nat) {x : α} (here : P x) :
    ∀ y ∈ l.set i x,P y := by
  intro y member
  rcases mem_or_eq_of_mem_set member with old | same
  · exact all y old
  · exact same ▸ here

variable {M : Type} {topic : M → Str}

variable {w s : Nat} {old worker : Worker M} {x y : Subscription M} {m : M} {key : Audience} {subs : List Nat}
  {groups : List Str}

namespace Bus

variable {b : Bus M}

@[simp] lemma addRoundRobin_workers (b : Bus M) (key : Audience) : (b.addRoundRobin key).workers = b.workers := by
  cases key <;> rfl

@[simp] lemma addRoundRobin_subs (b : Bus M) (key : Audience) : (b.addRoundRobin key).subs = b.subs := by
  cases key <;> rfl

@[simp] lemma addRoundRobin_queueCapacity (b : Bus M) (key : Audience) :
    (b.addRoundRobin key).queueCapacity = b.queueCapacity := by
  cases key <;> rfl

/-- The order in which the goroutines come to their ends. -/
structure Order (b : Bus M) : Prop where
  known : ∀ m known,b.call m = .accepted known → known ≤ b.subs.length
  ids : ∀ s (x : Subscription M),b.subs[s]? = some x → x.id = s
  named : ∀ worker ∈ b.workers,∀ m todo,worker = .delivering m todo → .group [] ∉ todo
  signalled : b.stopCh = true → b.closed = true
  shut : b.cleared = true → b.closed = true
  empty : b.cleared = true → b.inCh = []
  resting : b.cleared = true → ∀ worker ∈ b.workers,worker = .idle ∨ worker = .ended
  started : b.cleared = true → ∀ x ∈ b.subs,x.loop ≠ .unborn
  drained : ∀ x ∈ b.subs,x.loop = .ended → b.cleared = true ∧ x.ch = []
  finished : b.returned = true →
    b.cleared = true ∧ (∀ worker ∈ b.workers,worker = .ended) ∧ ∀ x ∈ b.subs,x.loop = .ended

lemma Order.ids_eq (order : b.Order) : b.subs.map (·.id) = List.range b.subs.length := by
  apply ext_getElem
  · simp
  · intro i bound _
    simp only [getElem_map,getElem_range]
    exact order.ids i _ (getElem?_eq_getElem (by simpa using bound))

lemma Order.setWorker (order : b.Order) (found : b.workers[w]? = some old)
    (active : old ≠ .ended) (rests : b.cleared = true → worker = .idle ∨ worker = .ended)
    (named : ∀ m todo,worker = .delivering m todo → .group [] ∉ todo) : (b.setWorker w worker).Order where
  known := order.known
  ids := order.ids
  named := forall_mem_set order.named w named
  signalled := order.signalled
  shut := order.shut
  empty := order.empty
  resting cleared := forall_mem_set (order.resting cleared) w (rests cleared)
  started := order.started
  drained := order.drained
  finished returned := absurd ((order.finished returned).2.1 old (mem_of_getElem? found)) active

lemma Order.setSub (order : b.Order) (found : b.subs[s]? = some x)
    (active : x.loop ≠ .ended) (same : y.id = x.id) (unborn : y.loop = .unborn → x.loop = .unborn)
    (drained : y.loop = .ended → b.cleared = true ∧ y.ch = []) : (b.setSub s y).Order where
  known m known accepted := by
    have bound := order.known m known accepted
    simpa [Bus.setSub] using bound
  ids s' x' found' := by
    rw [Bus.setSub,getElem?_set] at found'
    split at found'
    · rename_i here
      split at found'
      · cases found'
        rw [same,order.ids s x found,here]
      · cases found'
    · exact order.ids s' x' found'
  named := order.named
  signalled := order.signalled
  shut := order.shut
  empty := order.empty
  resting := order.resting
  started cleared :=
    forall_mem_set (order.started cleared) s
      (fun early => order.started cleared x (mem_of_getElem? found) (unborn early))
  drained := forall_mem_set order.drained s drained
  finished returned := absurd ((order.finished returned).2.2 x (mem_of_getElem? found)) active

variable {known : Nat}

lemma due_setSub (found : b.subs[s]? = some x) (same : y.audience = x.audience) (pattern : y.pattern = x.pattern)
    (due : (b.setSub s y).Due topic known m key) : b.Due topic known m key := by
  obtain ⟨s',x',early,found',hears,fits⟩ := due
  rw [Bus.setSub,getElem?_set] at found'
  split at found'
  · rename_i here
    subst here
    split at found'
    · cases found'
      exact ⟨s,x,early,found,same ▸ hears,pattern ▸ fits⟩
    · cases found'
  · exact ⟨s',x',early,found',hears,fits⟩

lemma count_todo (order : b.Order) (running : b.cleared = false)
    (keys : subs.Perm b.subKeys) (names : groups.Perm b.groupKeys) (due : b.Due topic known m key) :
    (subs.map Audience.broadcast ++ groups.map Audience.group).count key = 1 := by
  obtain ⟨s,x,_,found,rfl,_⟩ := due
  have present := mem_of_getElem? found
  simp only [subKeys,groupKeys,running,Bool.false_eq_true,if_false] at keys names
  apply count_eq_one_of_mem
  · rw [order.ids_eq] at keys
    apply List.Nodup.append
    · exact (keys.nodup_iff.mpr nodup_range).map (fun _ _ same => Audience.broadcast.inj same)
    · exact (names.nodup_iff.mpr (nodup_dedup _)).map (fun _ _ same => Audience.group.inj same)
    · intro key first second
      obtain ⟨_,_,rfl⟩ := mem_map.mp first
      obtain ⟨_,_,crossed⟩ := mem_map.mp second
      cases crossed
  · by_cases single : x.group = []
    · have listed : x.id ∈ subs := keys.mem_iff.mpr (mem_map_of_mem present)
      simp [Subscription.audience,audienceOf,single,listed]
    · have listed : x.group ∈ groups := names.mem_iff.mpr (by simpa [single] using ⟨x,present,rfl⟩)
      simp [Subscription.audience,audienceOf,single,listed]

lemma target_found (order : b.Order) (named : key ≠ .group [])
    (turned : b.target topic m key = some x) : b.subs[x.id]? = some x ∧ x.audience = key := by
  cases key with
  | broadcast id =>
    obtain ⟨found,fits⟩ := Option.filter_eq_some_iff.mp turned
    have same := order.ids id x found
    have single : x.group = [] := by simp only [Bool.and_eq_true,beq_iff_eq] at fits; exact fits.1
    exact ⟨same.symm ▸ found,by simp [Subscription.audience,audienceOf,single,same]⟩
  | group name =>
    have member := mem_of_getElem? turned
    obtain ⟨present,fits⟩ := mem_filter.mp member
    have same : x.group = name := by simp only [Bool.and_eq_true,beq_iff_eq] at fits; exact fits.1
    obtain ⟨i,found⟩ := mem_iff_getElem?.mp present
    have filled : name ≠ [] := fun empty => named (by rw [empty])
    exact ⟨(order.ids i x found).symm ▸ found,by simp [Subscription.audience,audienceOf,same,filled]⟩

lemma target_of_due (order : b.Order) (due : b.Due topic known m key) : b.target topic m key ≠ none := by
  obtain ⟨s,x,_,found,rfl,fits⟩ := due
  by_cases single : x.group = []
  · have same := order.ids s x found
    have key : x.audience = .broadcast s := by simp [Subscription.audience,audienceOf,single,same]
    simp [key,target,found,single,fits]
  · have key : x.audience = .group x.group := by simp [Subscription.audience,audienceOf,single]
    have member : x ∈ b.matchingSubs topic m x.group :=
      mem_filter.mpr ⟨mem_of_getElem? found,by simp [fits]⟩
    rw [key,target,ne_eq,getElem?_eq_none_iff,Nat.not_le]
    exact Nat.mod_lt _ (length_pos_of_mem member)

end Bus

variable [DecidableEq M]

def Worker.owes (m : M) (key : Audience) : Worker M → Nat
  | .got m' => if m' = m then 1 else 0
  | .delivering m' todo => if m' = m then todo.count key else 0
  | _ => 0

def Loop.holds (m : M) : Loop M → Nat
  | .busy m' _ => if m' = m then 1 else 0
  | _ => 0

def Subscription.owes (m : M) (key : Audience) (x : Subscription M) : Nat :=
  if x.audience = key then x.ch.count m + x.loop.holds m else 0

namespace Bus

variable {b : Bus M}

def copies (b : Bus M) (m : M) (key : Audience) : Nat :=
  b.inCh.count m + (b.workers.map (Worker.owes m key)).sum + (b.subs.map (Subscription.owes m key)).sum +
    b.settled m key

lemma copies_setWorker (found : b.workers[w]? = some old) (worker : Worker M) (m : M) (key : Audience) :
    (b.setWorker w worker).copies m key + old.owes m key = b.copies m key + worker.owes m key := by
  have moved := sum_map_set found (Worker.owes m key) worker
  simp only [copies,setWorker,settled] at moved ⊢
  omega

lemma copies_setSub (found : b.subs[s]? = some x) (y : Subscription M) (m : M) (key : Audience) :
    (b.setSub s y).copies m key + x.owes m key = b.copies m key + y.owes m key := by
  have moved := sum_map_set found (Subscription.owes m key) y
  simp only [copies,setSub,settled] at moved ⊢
  omega

lemma owes_le_copies (member : worker ∈ b.workers) (m : M) (key : Audience) :
    worker.owes m key ≤ b.copies m key := by
  have part := single_le_sum (fun _ _ => Nat.zero_le _) _ (mem_map_of_mem (f := Worker.owes m key) member)
  unfold copies
  omega

/-- What is counted, and what each count is to be. -/
structure Tally (topic : M → Str) (b : Bus M) : Prop where
  none : ∀ m key,(∀ known,b.call m ≠ .accepted known) → b.copies m key = 0
  one : ∀ m known key,b.call m = .accepted known → b.Due topic known m key → b.copies m key = 1

variable {b' : Bus M} {parked : Bool} {todo : List Audience}

lemma Tally.keep (tally : b.Tally topic)
    (calls : ∀ m known,b'.call m = .accepted known ↔ b.call m = .accepted known)
    (due : ∀ m known key,b.call m = .accepted known → b'.Due topic known m key → b.Due topic known m key)
    (same : ∀ m key,b'.copies m key = b.copies m key) : b'.Tally topic where
  none m key fresh := by
    rw [same]
    exact tally.none m key (fun known accepted => fresh known ((calls m known).mpr accepted))
  one m known key accepted needed := by
    rw [same]
    have before := (calls m known).mp accepted
    exact tally.one m known key before (due m known key before needed)

structure Inv (topic : M → Str) (b : Bus M) : Prop where
  tally : b.Tally topic
  order : b.Order

lemma Inv.delivered (inv : b.Inv topic) : b.Delivered topic := by
  intro returned m known key accepted due
  obtain ⟨cleared,workers,subs⟩ := inv.order.finished returned
  have total := inv.tally.one m known key accepted due
  have idle : (b.workers.map (Worker.owes m key)).sum = 0 := by
    apply sum_eq_zero
    intro n member
    obtain ⟨worker,at_work,rfl⟩ := mem_map.mp member
    rw [workers worker at_work]
    rfl
  have quiet : (b.subs.map (Subscription.owes m key)).sum = 0 := by
    apply sum_eq_zero
    intro n member
    obtain ⟨x,here,rfl⟩ := mem_map.mp member
    have ended := subs x here
    have nothing := (inv.order.drained x here ended).2
    simp [Subscription.owes,ended,nothing,Loop.holds]
  have none : b.inCh.count m = 0 := by rw [inv.order.empty cleared]; rfl
  unfold copies at total
  omega

/-! The callers of `Publish`. -/

lemma Inv.setCall (inv : b.Inv topic) {call : Call} (before : ∀ known,b.call m ≠ .accepted known)
    (after : ∀ known,call ≠ .accepted known) : (b.setCall m call).Inv topic := by
  have calls : ∀ m' known,(b.setCall m call).call m' = .accepted known ↔ b.call m' = .accepted known := by
    intro m' known
    by_cases here : m' = m
    · subst here
      simp [Bus.setCall,before known,after known]
    · simp [Bus.setCall,here]
  refine ⟨inv.tally.keep calls (fun _ _ _ _ due => due) (fun _ _ => rfl),{ inv.order with known := ?_ }⟩
  intro m' known accepted
  exact inv.order.known m' known ((calls m' known).mp accepted)

lemma Tally.accept (tally : b.Tally topic) (before : ∀ known,b.call m ≠ .accepted known)
    (calls : b'.call = (b.accept m).call) (subs : b'.subs = b.subs)
    (added : ∀ m' key,b'.copies m' key = b.copies m' key + if m = m' then 1 else 0) : b'.Tally topic := by
  constructor
  · intro m' key fresh
    have other : m ≠ m' := by
      rintro rfl
      exact fresh b.subs.length (by simp [calls,Bus.accept,Bus.setCall])
    have earlier : ∀ known,b.call m' ≠ .accepted known := by
      intro known
      simpa [calls,Bus.accept,Bus.setCall,other.symm] using fresh known
    rw [added,tally.none m' key earlier,if_neg other]
  · intro m' known key accepted due
    by_cases here : m = m'
    · subst here
      rw [added,tally.none m key before,if_pos rfl]
    · have earlier : b.call m' = .accepted known := by
        simpa [calls,Bus.accept,Bus.setCall,Ne.symm here] using accepted
      have needed : b.Due topic known m' key := by simpa only [Due,subs] using due
      rw [added,tally.one m' known key earlier needed,if_neg here]

lemma Order.accept (order : b.Order) (m : M) : (b.accept m).Order := by
  refine { order with known := ?_ }
  intro m' known accepted
  by_cases here : m' = m
  · subst here
    have same : b.subs.length = known := by simpa [Bus.accept,Bus.setCall] using accepted
    exact same.symm.le
  · have earlier : b.call m' = .accepted known := by simpa [Bus.accept,Bus.setCall,here] using accepted
    exact order.known m' known earlier

lemma Inv.send (inv : b.Inv topic) (checked : b.call m = .checked) (running : b.cleared = false) :
    ({ b.accept m with inCh := b.inCh ++ [m] } : Bus M).Inv topic := by
  have before : ∀ known,b.call m ≠ .accepted known := by simp [checked]
  constructor
  · refine inv.tally.accept before rfl rfl ?_
    intro m' key
    simp only [copies,Bus.accept,Bus.setCall,settled,count_append,count_singleton,beq_iff_eq]
    omega
  · refine { inv.order.accept m with empty := ?_ }
    intro cleared
    exact absurd (running.symm.trans cleared) Bool.false_ne_true

lemma Inv.handOver (inv : b.Inv topic) (checked : b.call m = .checked)
    (found : b.workers[w]? = some .idle) (running : b.cleared = false) :
    ((b.accept m).setWorker w (.got m)).Inv topic := by
  have before : ∀ known,b.call m ≠ .accepted known := by simp [checked]
  constructor
  · refine inv.tally.accept before rfl rfl ?_
    intro m' key
    have moved := copies_setWorker (b := b) found (.got m) m' key
    exact moved
  · refine (inv.order.accept m).setWorker found (by simp) ?_ (by simp)
    intro cleared
    exact absurd (running.symm.trans cleared) Bool.false_ne_true

/-! The workers. -/

lemma Inv.setWorker (inv : b.Inv topic) (found : b.workers[w]? = some old)
    (active : old ≠ .ended) (rests : worker = .idle ∨ worker = .ended)
    (same : ∀ m key,worker.owes m key = old.owes m key) : (b.setWorker w worker).Inv topic := by
  constructor
  · refine inv.tally.keep (fun _ _ => Iff.rfl) (fun _ _ _ _ due => due) ?_
    intro m key
    have moved := copies_setWorker found worker m key
    rw [same m key] at moved
    exact Nat.add_right_cancel moved
  · refine inv.order.setWorker found active (fun _ => rests) ?_
    rintro m todo rfl
    simp at rests

lemma Inv.take (inv : b.Inv topic) {rest : List M} (found : b.workers[w]? = some .idle)
    (queue : b.inCh = m :: rest) : ({ b.setWorker w (.got m) with inCh := rest } : Bus M).Inv topic := by
  have running : ¬ b.cleared = true := by
    intro cleared
    rw [inv.order.empty cleared] at queue
    cases queue
  constructor
  · refine inv.tally.keep (fun _ _ => Iff.rfl) (fun _ _ _ _ due => due) ?_
    intro m' key
    have moved := copies_setWorker found (.got m) m' key
    simp only [copies,Bus.setWorker,settled,queue,count_cons,beq_iff_eq,Worker.owes] at moved ⊢
    omega
  · have order : (b.setWorker w (.got m)).Order :=
      inv.order.setWorker found (by simp) (fun cleared => absurd cleared running) (by simp)
    exact { order with empty := fun cleared => absurd cleared running }

lemma Inv.lock (inv : b.Inv topic)
    (found : b.workers[w]? = some (.got m)) (keys : subs.Perm b.subKeys) (names : groups.Perm b.groupKeys) :
    (b.setWorker w (.delivering m (subs.map .broadcast ++ groups.map .group))).Inv topic := by
  have member := mem_of_getElem? found
  have running : b.cleared = false := by
    cases cleared : b.cleared with
    | false => rfl
    | true => simpa using inv.order.resting cleared _ member
  have moved := copies_setWorker found (.delivering m (subs.map .broadcast ++ groups.map .group))
  refine ⟨⟨?_,?_⟩,?_⟩
  · intro m' key fresh
    have none := inv.tally.none m' key fresh
    -- the worker's own message is a counted one
    have other : m ≠ m' := by
      rintro rfl
      have part := owes_le_copies member m key
      simp [Worker.owes,none] at part
    simpa [Worker.owes,other,none] using moved m' key
  · intro m' known key accepted due
    have one := inv.tally.one m' known key accepted due
    have all := count_todo inv.order running keys names due
    have change := moved m' key
    simp only [Worker.owes,all,one] at change
    exact Nat.add_right_cancel change
  · refine inv.order.setWorker found (by simp) (fun cleared => absurd (running.symm.trans cleared) Bool.false_ne_true) ?_
    intro m' todo same
    cases same
    simp [names.mem_iff,groupKeys,running]

lemma deliver_room (active : x.loop ≠ .ended)
    (room : x.ch.length < b.queueCapacity ∨ b.queueCapacity = 0 ∧ x.loop = .idle ∧ parked = true) :
    ∃ y : Subscription M,b.deliver x m parked = b.setSub x.id y ∧ y.id = x.id ∧ y.audience = x.audience ∧
      y.pattern = x.pattern ∧ y.loop ≠ .ended ∧ (y.loop = .unborn → x.loop = .unborn) ∧
      ∀ m' key,y.owes m' key = x.owes m' key + if x.audience = key ∧ m = m' then 1 else 0 := by
  by_cases space : x.ch.length < b.queueCapacity
  · refine ⟨{ x with ch := x.ch ++ [m] },by rw [deliver,if_pos space],rfl,rfl,rfl,active,id,?_⟩
    intro m' key
    by_cases here : x.audience = key
    · have whose : ({ x with ch := x.ch ++ [m] } : Subscription M).audience = key := here
      simp only [Subscription.owes,whose,here,if_true,true_and,count_append,count_singleton,beq_iff_eq]
      omega
    · have whose : ({ x with ch := x.ch ++ [m] } : Subscription M).audience ≠ key := here
      simp [Subscription.owes,whose,here]
  · obtain ⟨unbuffered,idle,waits⟩ := room.resolve_left space
    refine ⟨{ x with loop := .busy m 0 },by rw [deliver,if_neg space,if_pos ⟨unbuffered,idle,waits⟩],
      rfl,rfl,rfl,by simp,by simp,?_⟩
    intro m' key
    by_cases here : x.audience = key
    · have whose : ({ x with loop := .busy m 0 } : Subscription M).audience = key := here
      simp [Subscription.owes,whose,here,idle,Loop.holds]
    · have whose : ({ x with loop := .busy m 0 } : Subscription M).audience ≠ key := here
      simp [Subscription.owes,whose,here]

lemma Inv.addRoundRobin (inv : b.Inv topic) (key : Audience) : (b.addRoundRobin key).Inv topic := by
  cases key with
  | broadcast id => exact inv
  | group name => exact ⟨⟨inv.tally.none,inv.tally.one⟩,{ inv.order with }⟩

lemma Inv.skip (inv : b.Inv topic)
    (found : b.workers[w]? = some (.delivering m (key :: todo))) (passed : b.target topic m key = none) :
    (b.setWorker w (.delivering m todo)).Tally topic := by
  have moved := copies_setWorker found (.delivering m todo)
  constructor
  · intro m' key' fresh
    have none := inv.tally.none m' key' fresh
    have change := moved m' key'
    simp only [Worker.owes,count_cons,none] at change
    split at change <;> omega
  · intro m' known key' accepted due
    have one := inv.tally.one m' known key' accepted due
    have other : m = m' → key ≠ key' := by
      rintro rfl rfl
      exact target_of_due inv.order due passed
    have change := moved m' key'
    by_cases here : m = m'
    · simp only [Worker.owes,if_pos here,count_cons,beq_iff_eq,if_neg (other here),one] at change
      omega
    · simp only [Worker.owes,if_neg here,one] at change
      exact change

lemma Inv.hand (inv : b.Inv topic)
    (found : b.workers[w]? = some (.delivering m (x.audience :: todo))) (stands : b.subs[x.id]? = some x)
    (room : x.ch.length < b.queueCapacity ∨ b.queueCapacity = 0 ∧ x.loop = .idle ∧ parked = true) :
    ((b.deliver x m parked).setWorker w (.delivering m todo)).Inv topic := by
  have member := mem_of_getElem? found
  have running : ¬ b.cleared = true := by
    intro cleared
    simpa using inv.order.resting cleared _ member
  have active := fun ended =>
    running (inv.order.drained x (mem_of_getElem? stands) ended).1
  obtain ⟨y,put,id,audience,pattern,going,unborn,owes⟩ := deliver_room (b := b) (m := m) active room
  rw [put]
  have order := inv.order.setSub stands active id unborn (fun ended => absurd ended going)
  constructor
  · refine inv.tally.keep (fun _ _ => Iff.rfl) (fun _ _ _ _ due => due_setSub stands audience pattern due) ?_
    intro m' key
    have added := copies_setSub stands y m' key
    have removed := copies_setWorker (b := b.setSub x.id y) found (.delivering m todo) m' key
    rw [owes] at added
    by_cases here : m = m'
    · subst here
      simp only [Worker.owes,if_true,count_cons,beq_iff_eq,and_true] at added removed
      omega
    · simp only [Worker.owes,here,and_false,if_false] at added removed
      omega
  · refine order.setWorker found (by simp) (fun cleared => absurd cleared running) ?_
    rintro _ _ ⟨⟩ listed
    exact inv.order.named _ member m _ rfl (mem_cons_of_mem _ listed)

lemma Inv.offer (inv : b.Inv topic) (clean : b.Clean topic (.offer w parked)) :
    (b.offer topic w parked).Inv topic := by
  unfold Bus.offer
  split
  · rename_i m key todo found
    have member := mem_of_getElem? found
    have named := inv.order.named _ member m _ rfl
    split
    · rename_i x turned
      obtain ⟨stands,rfl⟩ := target_found inv.order (fun same => named (same ▸ mem_cons_self)) turned
      have room := clean _ found x turned
      exact (inv.addRoundRobin x.audience).hand (by simpa using found) (by simpa using stands) (by simpa using room)
    · rename_i passed
      refine ⟨inv.skip found passed,inv.order.setWorker found (by simp) ?_ ?_⟩
      · intro cleared
        simpa using inv.order.resting cleared _ member
      · rintro _ _ ⟨⟩ listed
        exact named (mem_cons_of_mem key listed)
  · exact inv

/-! The subscriptions. -/

lemma Inv.subscribeInternal (inv : b.Inv topic) (group pattern : Str) :
    (b.subscribeInternal group pattern).Inv topic := by
  unfold Bus.subscribeInternal
  split
  · exact inv
  · split
    · exact inv
    · rename_i opened
      have running := fun cleared => opened (inv.order.shut cleared)
      have idle := fun returned => running (inv.order.finished returned).1
      constructor
      · refine inv.tally.keep (fun _ _ => Iff.rfl) ?_ ?_
        · rintro m known key accepted ⟨s,x,early,found,hears,fits⟩
          have bound := inv.order.known m known accepted
          rw [getElem?_append_left (by omega)] at found
          exact ⟨s,x,early,found,hears,fits⟩
        · intro m key
          simp [copies,settled,Subscription.owes,Loop.holds]
      · refine { inv.order with known := ?_,ids := ?_,started := ?_,drained := ?_,finished := ?_ }
        · intro m known accepted
          have bound := inv.order.known m known accepted
          rw [length_append]
          omega
        · intro s x found
          rw [getElem?_append] at found
          split at found
          · exact inv.order.ids s x found
          · rename_i late
            have here : s - b.subs.length = 0 := by
              have inside := (List.getElem?_eq_some_iff.mp found).1
              simpa using inside
            rw [here] at found
            cases found
            show b.subs.length = s
            omega
        · exact fun cleared => absurd cleared running
        · intro x member ended
          rcases mem_append.mp member with old | new
          · exact inv.order.drained x old ended
          · rw [mem_singleton.mp new] at ended
            cases ended
        · exact fun returned => absurd returned idle

lemma Inv.setSub (inv : b.Inv topic) (found : b.subs[s]? = some x)
    (active : x.loop ≠ .ended) (id : y.id = x.id) (audience : y.audience = x.audience) (pattern : y.pattern = x.pattern)
    (born : y.loop ≠ .unborn) (drained : y.loop = .ended → b.cleared = true ∧ y.ch = [])
    (same : ∀ m,y.ch.count m + y.loop.holds m = x.ch.count m + x.loop.holds m) : (b.setSub s y).Inv topic := by
  constructor
  · refine inv.tally.keep (fun _ _ => Iff.rfl) (fun _ _ _ _ due => due_setSub found audience pattern due) ?_
    intro m key
    have moved := copies_setSub found y m key
    have owes : y.owes m key = x.owes m key := by rw [Subscription.owes,Subscription.owes,audience,same]
    rw [owes] at moved
    exact Nat.add_right_cancel moved
  · exact inv.order.setSub found active id (fun early => absurd early born) drained

lemma Inv.settle (inv : b.Inv topic) {n : Nat} (found : b.subs[s]? = some x)
    (busy : x.loop = .busy m n) (handled : Bool) : (b.settle x m handled).Inv topic := by
  have stands : b.subs[x.id]? = some x := by rw [inv.order.ids s x found]; exact found
  have order := inv.order.setSub (y := { x with loop := .idle }) stands (by simp [busy]) rfl (by simp) (by simp)
  refine ⟨inv.tally.keep (fun _ _ => Iff.rfl) ?_ ?_,{ order with }⟩
  · intro m' known key _ due
    exact due_setSub (y := { x with loop := .idle }) stands rfl rfl due
  intro m' key
  have moved := copies_setSub stands { x with loop := .idle } m' key
  have freed : ({ x with loop := .idle } : Subscription M).owes m' key +
      (if m = m' ∧ x.audience = key then 1 else 0) = x.owes m' key := by
    have whose : ({ x with loop := .idle } : Subscription M).audience = x.audience := rfl
    rw [Subscription.owes,Subscription.owes,whose,busy]
    by_cases here : x.audience = key <;> simp [here,Loop.holds]
  have recorded : (b.settle x m handled).copies m' key =
      (b.setSub x.id { x with loop := .idle }).copies m' key + if m = m' ∧ x.audience = key then 1 else 0 := by
    have whose : audienceOf x.id x.group = x.audience := rfl
    simp only [copies,Bus.settle,settled,Bus.setSub,countP_append,countP_singleton,whose,
      decide_eq_true_eq]
    omega
  omega

lemma Inv.attempt (inv : b.Inv topic) (s : Nat) (ok : Bool) : (b.attempt s ok).Inv topic := by
  unfold Bus.attempt
  split
  · rename_i x found
    split
    · rename_i m n busy
      split
      · split
        · exact inv.settle found busy true
        · exact inv.setSub found (by simp [busy]) rfl rfl rfl (by simp) (by simp) (by simp [busy,Loop.holds])
      · exact inv.settle found busy false
    · exact inv
  · exact inv

/-! The whole system. -/

lemma Inv.clear (inv : b.Inv topic) (signalled : b.stopCh = true) (unlocked : b.unlocked = true)
    (clean : b.Clean topic .clear) : ({ b with cleared := true } : Bus M).Inv topic := by
  obtain ⟨empty,free,started⟩ := clean
  refine ⟨⟨inv.tally.none,inv.tally.one⟩,{ inv.order with
    shut := fun _ => inv.order.signalled signalled
    empty := fun _ => empty
    resting := ?_
    started := fun _ => started
    drained := fun x member ended => ⟨rfl,(inv.order.drained x member ended).2⟩
    finished := fun returned => ⟨rfl,(inv.order.finished returned).2⟩ }⟩
  intro _ worker member
  have carries := free worker member
  have outside := all_eq_true.mp unlocked worker member
  cases worker with
  | idle => exact .inl rfl
  | got m => cases carries
  | delivering m todo => cases outside
  | ended => exact .inr rfl

lemma step_inv (inv : b.Inv topic) {choice : Choice M} (clean : b.Clean topic choice) :
    (b.step topic choice).Inv topic := by
  cases choice
  all_goals simp only [step]
  case publish m =>
    split_ifs with fresh
    · exact inv.setCall (by simp [fresh]) (by simp)
    · exact inv.setCall (by simp [fresh]) (by simp)
    · exact inv
  case send m =>
    split_ifs with ready
    · exact inv.send ready.1 clean
    · exact inv
  case handOver m w =>
    split_ifs with ready
    · exact inv.handOver ready.1 ready.2.2 clean
    · exact inv
  case giveUp m =>
    split_ifs with checked
    · exact inv.setCall (by simp [checked]) (by simp)
    · exact inv
  case take w =>
    split
    · rename_i m rest found queue
      exact inv.take found queue
    · exact inv
  case lock w subs groups =>
    split
    · rename_i m found
      split_ifs with keys
      · exact inv.lock found keys.1 keys.2
      · exact inv
    · exact inv
  case offer w parked => exact inv.offer clean
  case release w =>
    split
    · rename_i found
      exact inv.setWorker found (by simp) (.inl rfl) (by simp [Worker.owes])
    · exact inv
  case leave w =>
    split_ifs with ready
    · exact inv.setWorker ready.1 (by simp) (.inr rfl) (by simp [Worker.owes])
    · exact inv
  case subscribe group pattern =>
    split_ifs
    · exact inv.subscribeInternal group pattern
    · exact inv
  case start s =>
    split
    · rename_i x found
      split_ifs with unborn
      · exact inv.setSub found (by simp [unborn]) rfl rfl rfl (by simp) (by simp) (by simp [unborn,Loop.holds])
      · exact inv
    · exact inv
  case receive s =>
    split
    · rename_i x found
      split
      · rename_i m rest idle queue
        refine inv.setSub found (by simp [idle]) rfl rfl rfl (by simp) (by simp) ?_
        intro m'
        simp [queue,idle,Loop.holds,count_cons]
      · exact inv
    · exact inv
  case attempt s ok => exact inv.attempt s ok
  case exit s =>
    split
    · rename_i x found
      split_ifs with ready
      · obtain ⟨empty,cleared⟩ := clean x found
        exact inv.setSub found (by simp [ready.1]) rfl rfl rfl (by simp) (fun _ => ⟨cleared,empty⟩)
          (by simp [ready.1,Loop.holds])
      · exact inv
    · exact inv
  case stop =>
    split_ifs with closed
    · have returned := clean closed
      refine ⟨⟨inv.tally.none,inv.tally.one⟩,{ inv.order with finished := ?_ }⟩
      exact fun _ => inv.order.finished returned
    · exact ⟨⟨inv.tally.none,inv.tally.one⟩,{ inv.order with signalled := fun _ => rfl,shut := fun _ => rfl }⟩
  case closeStopCh =>
    split_ifs with closed
    · exact ⟨⟨inv.tally.none,inv.tally.one⟩,{ inv.order with signalled := fun _ => closed }⟩
    · exact inv
  case clear =>
    split_ifs with ready
    · exact inv.clear ready.1 ready.2 clean
    · exact inv
  case wait =>
    split_ifs with ready
    · obtain ⟨cleared,workers,subs⟩ := ready
      refine ⟨⟨inv.tally.none,inv.tally.one⟩,{ inv.order with finished := fun _ => ⟨cleared,workers,?_⟩ }⟩
      intro x member
      exact (subs x member).resolve_left (inv.order.started cleared x member)
    · exact inv

lemma new_inv (queueCapacity workerCount : Nat) (maxRetries : Int) :
    (Bus.new queueCapacity workerCount maxRetries : Bus M).Inv topic := by
  constructor
  · constructor
    · intro m key _
      simp [copies,Bus.new,settled,Worker.owes]
    · intro m known key accepted
      cases accepted
  · constructor <;> simp [Bus.new]

/-- Once `Stop` has returned, every accepted message has been handled or put among the dead
letters exactly once for each broadcast subscription that matched it all along, and by exactly
one member, exactly once, for each group with such a member. -/
theorem delivered_of_clean (queueCapacity workerCount : Nat) (maxRetries : Int) (choices : List (Choice M))
    (clean : Along (step topic) (Clean topic) (new queueCapacity workerCount maxRetries) choices) :
    Throughout (step topic) (Delivered topic) (new queueCapacity workerCount maxRetries) choices := by
  have kept : Throughout (step topic) (Inv topic) (new queueCapacity workerCount maxRetries) choices :=
    Along.throughout (fun _ _ inv clean => step_inv inv clean) (new_inv queueCapacity workerCount maxRetries) clean
  exact kept.mono (fun _ inv => inv.delivered)

instance (b : Bus M) (choice : Choice M) : Decidable (b.Clean topic choice) := by
  cases choice with
  | offer w parked =>
    unfold Clean
    have each : ∀ worker : Worker M,Decidable (match worker with
        | .delivering m (key :: _) => ∀ x ∈ b.target topic m key,
          x.ch.length < b.queueCapacity ∨ b.queueCapacity = 0 ∧ x.loop = .idle ∧ parked = true
        | _ => True) := by
      intro worker
      split <;> infer_instance
    infer_instance
  | _ => unfold Clean; infer_instance

def ordersTopic : Nat → Str
  | 0 => "orders.created".toList
  | _ => "users.created".toList

/-- A broadcast subscription and a group of two: the first message is for both, the second one
for the broadcast subscription alone, whose handler fails until the message is given up. -/
def orderly : List (Choice Nat) :=
  [.subscribe [] "#".toList,.subscribe "g".toList "orders.*".toList,.subscribe "g".toList "orders.#".toList,
    .start 0,.start 1,.start 2,.publish 0,.send 0,.publish 1,.send 1,
    .take 0,.lock 0 [2,0,1] ["g".toList],.offer 0 false,.offer 0 false,.offer 0 false,.offer 0 false,.release 0,
    .take 0,.lock 0 [0,1,2] ["g".toList],.offer 0 false,.offer 0 false,.offer 0 false,.offer 0 false,.release 0,
    .stop,.closeStopCh,.leave 0,.clear,.receive 0,.attempt 0 true,.receive 0,.attempt 0 false,.attempt 0 false,
    .receive 2,.attempt 2 true,.exit 0,.exit 1,.exit 2,.wait]

theorem handled_and_given_up :
    Along (step ordersTopic) (Clean ordersTopic) (new 2 1 0) orderly ∧
      Throughout (step ordersTopic) (Delivered ordersTopic) (new 2 1 0) orderly ∧
      (orderly.foldl (step ordersTopic) (new 2 1 0)).returned = true ∧
      (orderly.foldl (step ordersTopic) (new 2 1 0)).outcomes =
        [⟨0,[],0,true⟩,⟨0,[],1,false⟩,⟨2,"g".toList,0,true⟩] := by
  have clean : Along (step ordersTopic) (Clean ordersTopic) (new 2 1 0) orderly := by decide
  exact ⟨clean,delivered_of_clean 2 1 0 orderly clean,by decide,by decide⟩

def stopped : List (Choice Nat) :=
  [.subscribe [] "#".toList,.start 0,.publish 0,.send 0,.stop,.closeStopCh,.leave 0,.exit 0,.clear,.wait]

def overfull : List (Choice Nat) :=
  [.subscribe [] "#".toList,.start 0,.publish 0,.send 0,
    .take 0,.lock 0 [0] [],.offer 0 false,.release 0,.publish 1,.send 1,
    .take 0,.lock 0 [0] [],.offer 0 false,.release 0,.receive 0,.attempt 0 true,
    .stop,.closeStopCh,.leave 0,.clear,.exit 0,.wait]

def ending (choices : List (Choice Nat)) : Bus Nat := choices.foldl (step ordersTopic) (new 1 1 2)

theorem accepted_and_lost :
    ((ending stopped).returned = true ∧ (ending stopped).call 0 = .accepted 1 ∧
      (ending stopped).Due ordersTopic 1 0 (.broadcast 0) ∧ (ending stopped).outcomes = []) ∧
    ((ending overfull).returned = true ∧ (ending overfull).call 1 = .accepted 1 ∧
      (ending overfull).Due ordersTopic 1 1 (.broadcast 0) ∧ (ending overfull).outcomes = [⟨0,[],0,true⟩]) ∧
    ¬ Throughout (step ordersTopic) (Delivered ordersTopic) (new 1 1 2) stopped ∧
    ¬ Throughout (step ordersTopic) (Delivered ordersTopic) (new 1 1 2) overfull := by
  have first : (ending stopped).Due ordersTopic 1 0 (.broadcast 0) :=
    ⟨0,⟨0,[],"#".toList,[],.ended⟩,by decide,by decide,by decide,by decide⟩
  have second : (ending overfull).Due ordersTopic 1 1 (.broadcast 0) :=
    ⟨0,⟨0,[],"#".toList,[],.ended⟩,by decide,by decide,by decide,by decide⟩
  refine ⟨⟨by decide,by decide,first,by decide⟩,⟨by decide,by decide,second,by decide⟩,?_,?_⟩
  · intro always
    have one := always stopped prefix_rfl (by decide) 0 1 (.broadcast 0) (by decide) first
    exact absurd one (by decide)
  · intro always
    have one := always overfull prefix_rfl (by decide) 1 1 (.broadcast 0) (by decide) second
    exact absurd one (by decide)

end Bus

end Tempest.EventBus
