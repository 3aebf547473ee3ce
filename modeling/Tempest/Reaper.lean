import Mathlib.Data.Int.ConditionallyCompleteOrder
import Mathlib.Tactic.Linarith
import Tempest.Leasing

/-! The lease reaper of `internal/worker` next to any number of workers. Workers
enqueue, dequeue and complete in single critical sections; a `runOnce` call takes
a list of expired items in one critical section and releases them by their keys,
one critical section each, while the others go on. A worker holds the leases
that it was handed and has not completed. -/
open List
namespace Tempest.Reaper
open Interaction Filing

structure LeaseReaper where
  leaseTimeout : Duration
  positive : 0 < leaseTimeout

def newLeaseReaper (leaseTimeout : Duration) : LeaseReaper :=
  if given : 0 < leaseTimeout then ⟨leaseTimeout,given⟩ else ⟨60 * second,by decide⟩

inductive QueueOp
  | clock
  | leaseExpired (leaseTimeout : Duration) (now : Time)
  | releaseStep (ns : Namespace) (runID stepID : String)

@[reducible] def QueueOp.Res : QueueOp → Type
  | clock => Time
  | leaseExpired .. => List QueueItem
  | releaseStep .. => Except Classified Unit

def releaseEach : List QueueItem → Prog QueueOp.Res Unit
  | [] => .done ()
  | item :: rest => .call (.releaseStep item.ns item.runID item.stepID) (fun _ => releaseEach rest)

def LeaseReaper.runOnce (w : LeaseReaper) : Prog QueueOp.Res Unit :=
  .call .clock (fun now => .call (.leaseExpired w.leaseTimeout now) releaseEach)

structure Held where
  worker : Nat
  lease : QueueLease
  granted : Time
  deriving DecidableEq

def Held.key (h : Held) : String := h.lease.item.key

structure Floor where
  store : Store
  tick : Nat := 0
  held : List Held := []

def Floor.advance (f : Floor) : Floor := { f with tick := f.tick + 1 }

def execOp (env : Env) (op : QueueOp) (f : Floor) : op.Res × Floor :=
  match op with
  | .clock => (env.clock f.tick,f.advance)
  | .leaseExpired leaseTimeout now => (f.store.leaseExpired (env.order f.tick) leaseTimeout now,f.advance)
  | .releaseStep ns runID stepID =>
    match f.store.releaseStep (env.clock f.tick) ns runID stepID with
    | .ok store => (.ok (),{ f.advance with store })
    | .error e => (.error e,f.advance)

/-- How far a `runOnce` call has come: the clock reading that it asked about and what
is left of the answer. -/
inductive Reaping
  | started
  | read (now : Time)
  | releasing (now : Time) (pending : List QueueItem)
  deriving DecidableEq

namespace Reaping

def observe : Reaping → (op : QueueOp) → op.Res → Reaping
  | .started, .clock, now => .read now
  | .read now, .leaseExpired .., expired => .releasing now expired
  | .releasing now (_ :: rest), .releaseStep .., _ => .releasing now rest
  | label, _, _ => label

def permitted : Reaping → QueueOp → Prop
  | .started, .clock => True
  | .read now, .leaseExpired leaseTimeout asked => 0 < leaseTimeout ∧ asked = now
  | .releasing _ (item :: _), .releaseStep ns runID stepID =>
    ns = item.ns ∧ runID = item.runID ∧ stepID = item.stepID
  | _, _ => False

def reading : Reaping → Option Time
  | .started => none
  | .read now | .releasing now _ => some now

def pending : Reaping → List QueueItem
  | .started | .read _ => []
  | .releasing _ pending => pending

def discipline : Discipline QueueOp.Res Reaping := ⟨observe,permitted,fun _ _ _ => True,fun _ => True⟩

end Reaping

lemma releaseEach_obeys (now : Time) (items : List QueueItem) :
    (releaseEach items).Obeys Reaping.discipline (.releasing now items) := by
  induction items with
  | nil => exact trivial
  | cons item rest ih => exact ⟨⟨rfl,rfl,rfl⟩,fun _ _ => ih⟩

lemma runOnce_obeys (w : LeaseReaper) : w.runOnce.Obeys Reaping.discipline .started := by
  refine ⟨trivial,fun now _ => ⟨⟨w.positive,rfl⟩,fun expired _ => ?_⟩⟩
  exact releaseEach_obeys now expired

abbrev System := Pool QueueOp.Res Floor Reaping Unit

inductive Choice
  | enqueue (item : QueueItem)
  | dequeueAny (worker : Nat) (limit : Int)
  | completeStep (worker : Nat) (ns : Namespace) (runID stepID leaseToken : String)
  | reap (w : LeaseReaper)
  | advance (i : Nat)

variable (env : Env)

def now (s : System) : Time := env.clock s.shared.tick

def handOut (s : System) (limit : Int) : List QueueLease × Store :=
  s.shared.store.dequeueAny (env.order s.shared.tick) (env.token s.shared.tick) limit (now env s)

def act (s : System) : Choice → System
  | .enqueue item => { s with shared := { s.shared.advance with store := s.shared.store.enqueue item } }
  | .dequeueAny worker limit =>
    let (leases,store) := handOut env s limit
    { s with shared := { s.shared.advance with
      store
      held := s.shared.held ++ leases.map (fun lease => ⟨worker,lease,now env s⟩) } }
  | .completeStep worker ns runID stepID leaseToken =>
    match s.shared.store.completeStep ns runID stepID leaseToken with
    | .ok store =>
      { s with shared := { s.shared.advance with
        store
        held := s.shared.held.filter (fun h => ¬ (h.worker = worker ∧ h.key = queueKey ns runID stepID)) } }
    | .error _ => { s with shared := s.shared.advance }
  | .reap w => { s with threads := s.threads ++ [⟨.started,w.runOnce⟩] }
  | .advance i => s.advance (execOp env) Reaping.observe i

def Recent (s : System) (h : Held) : Prop := now env s - h.granted < Store.visibility

instance (s : System) (h : Held) : Decidable (Recent env s h) := inferInstanceAs (Decidable (_ < _))

def Exclusive (s : System) : Choice → Prop
  | .dequeueAny _ limit =>
    ∀ lease ∈ (handOut env s limit).1, ∀ h ∈ s.shared.held, h.key = lease.item.key → ¬ Recent env s h
  | _ => True

instance (s : System) : (c : Choice) → Decidable (Exclusive env s c)
  | .dequeueAny _ limit => inferInstanceAs (Decidable (∀ lease ∈ (handOut env s limit).1, _))
  | .enqueue _ | .completeStep .. | .reap _ | .advance _ => .isTrue trivial

/-- What is released was not leased since the reaper read the clock, and what is
enqueued is not leased, leases of 30 seconds and more apart. -/
def Unraced (s : System) : Choice → Prop
  | .enqueue item => ∀ h ∈ s.shared.held, h.key = item.key → ¬ Recent env s h
  | .advance i =>
    match s.upcoming i with
    | some (.releasing reading _,.releaseStep ns runID stepID) =>
      ∀ h ∈ s.shared.held, h.key = queueKey ns runID stepID → reading ≤ h.granted → ¬ Recent env s h
    | _ => True
  | .dequeueAny .. | .completeStep .. | .reap _ => True

instance (s : System) : (c : Choice) → Decidable (Unraced env s c)
  | .enqueue _ => inferInstanceAs (Decidable (∀ h ∈ s.shared.held, _))
  | .advance i => by
    unfold Unraced
    dsimp only
    split <;> infer_instance
  | .dequeueAny .. | .completeStep .. | .reap _ => .isTrue trivial

/-- The call keeps to the program of `runOnce`, and if somebody holds a recent lease on
an item that the call is to release, then the call had read the clock before. -/
structure Sound (s : System) (t : Interaction.Thread QueueOp.Res Reaping Unit) : Prop where
  obeys : t.Obeys Reaping.discipline
  reading : ∀ reading ∈ t.label.reading, reading ≤ now env s
  listed : ∀ reading ∈ t.label.reading, ∀ item ∈ t.label.pending, ∀ h ∈ s.shared.held,
    h.key = item.key → Recent env s h → reading ≤ h.granted

/-- An item on which somebody holds a recent lease is not visible before the lease is
30 seconds old. -/
structure Shielded (s : System) : Prop where
  hidden : ∀ h ∈ s.shared.held, Recent env s h → ∀ item, s.shared.store.queue.lookup h.key = some item →
    h.granted + Store.visibility ≤ item.visibleAt
  sound : ∀ t ∈ s.threads, Sound env s t

variable {env} {s s' : System}

lemma Shielded.visible (shielded : Shielded env s) {item : QueueItem} (member : item ∈ s.shared.store.queue.rows)
    {instant : Time} (past : instant ≤ now env s) (visible : item.visibleAt < instant)
    (h : Held) (held : h ∈ s.shared.held) (same : h.key = item.key) : ¬ Recent env s h := by
  intro recent
  have stored : s.shared.store.queue.lookup h.key = some item := by
    rw [same]
    exact s.shared.store.queue.lookup_of_mem member
  have later := shielded.hidden h held recent item stored
  unfold Recent at recent
  linarith

lemma Shielded.expired (shielded : Shielded env s) {leaseTimeout : Duration} (positive : 0 < leaseTimeout) 
    {reading : Time} (past : reading ≤ now env s) {order : List String} {item : QueueItem}
    (listed : item ∈ s.shared.store.leaseExpired order leaseTimeout reading) (h : Held) (held : h ∈ s.shared.held)
    (same : h.key = item.key) : ¬ Recent env s h := by
  obtain ⟨member,test⟩ := mem_filter.mp listed
  have elapsed : leaseTimeout < reading - item.visibleAt := by
    simp only [decide_eq_true_eq] at test
    exact test.2
  have visible : item.visibleAt < reading := by linarith
  exact shielded.visible ((s.shared.store.queue.mem_range order item).mp member) past visible h held same

lemma execOp_releaseStep (env : Env) (f : Floor) (ns : Namespace) (runID stepID : String) :
    (execOp env (.releaseStep ns runID stepID) f).2.tick = f.tick + 1 ∧
      (execOp env (.releaseStep ns runID stepID) f).2.held = f.held ∧ ∀ q,q ≠ queueKey ns runID stepID →
        (execOp env (.releaseStep ns runID stepID) f).2.store.queue.lookup q = f.store.queue.lookup q := by
  simp only [execOp]
  cases released : f.store.releaseStep (env.clock f.tick) ns runID stepID with
  | error e => exact ⟨rfl,rfl,fun _ _ => rfl⟩
  | ok store =>
    refine ⟨rfl,rfl,?_⟩
    intro q different
    obtain ⟨item,found,rfl⟩ := Store.updateItem_ok _ _ _ _ _ _ released
    rw [Table.lookup_insert,if_neg]
    intro same
    apply different
    rw [same,← f.store.queue.lookup_key found]
    rfl

section Clock

variable (ordered : Monotone env.clock) (later : s.shared.tick ≤ s'.shared.tick)

include ordered later

lemma recent_before (h : Held) (recent : Recent env s' h) : Recent env s h := by
  have clock : now env s ≤ now env s' := ordered later
  unfold Recent at recent ⊢
  linarith

lemma Sound.lasts {t : Interaction.Thread QueueOp.Res Reaping Unit} (sound : Sound env s t)
    (held : ∀ h ∈ s'.shared.held,h ∈ s.shared.held ∨ h.granted = now env s) : Sound env s' t := by
  refine ⟨sound.obeys,?_,?_⟩
  · intro reading read
    exact (sound.reading reading read).trans (ordered later)
  · intro reading read item inside h here same recent
    rcases held h here with old | new
    · exact sound.listed reading read item inside h old same (recent_before ordered later h recent)
    · rw [new]
      exact sound.reading reading read

lemma Shielded.quiet (shielded : Shielded env s) (held : ∀ h ∈ s'.shared.held,h ∈ s.shared.held)
    (queue : ∀ h ∈ s'.shared.held,Recent env s h →
      ∀ item,s'.shared.store.queue.lookup h.key = some item → s.shared.store.queue.lookup h.key = some item)
    (threads : ∀ t ∈ s'.threads,Sound env s t) : Shielded env s' := by
  constructor
  · intro h member recent item stored
    have before := recent_before ordered later h recent
    exact shielded.hidden h (held h member) before item (queue h member before item stored)
  · intro t member
    exact (threads t member).lasts ordered later (fun h here => .inl (held h here))

end Clock

section Steps

variable (ordered : Monotone env.clock) (shielded : Shielded env s)

include ordered shielded

lemma Shielded.enqueue (item : QueueItem) (unraced : Unraced env s (.enqueue item)) :
    Shielded env (act env s (.enqueue item)) := by
  apply shielded.quiet ordered (Nat.le_succ _)
  · exact fun _ member => member
  · intro h member recent other stored
    have different := fun same => unraced h member same recent
    change (s.shared.store.queue.insert item).lookup h.key = some other at stored
    rw [Table.lookup_insert,if_neg different] at stored
    exact stored
  · exact shielded.sound

lemma Shielded.completeStep (worker : Nat) (ns : Namespace) (runID stepID leaseToken : String) :
    Shielded env (act env s (.completeStep worker ns runID stepID leaseToken)) := by
  simp only [act]
  cases completed : s.shared.store.completeStep ns runID stepID leaseToken with
  | error e =>
    apply shielded.quiet ordered (Nat.le_succ _)
    · exact fun _ member => member
    · exact fun _ _ _ _ stored => stored
    · exact shielded.sound
  | ok store =>
    obtain ⟨_,rfl⟩ := Store.completeStep_ok _ _ _ _ _ _ completed
    apply shielded.quiet ordered (Nat.le_succ _)
    · exact fun _ member => (mem_filter.mp member).1
    · intro h _ _ item stored
      rw [Table.lookup_erase] at stored
      split_ifs at stored
      exact stored
    · exact shielded.sound

lemma Shielded.reap (w : LeaseReaper) : Shielded env (act env s (.reap w)) := by
  have same : s.shared.tick ≤ (act env s (.reap w)).shared.tick := le_rfl
  apply shielded.quiet ordered same
  · exact fun _ member => member
  · exact fun _ _ _ _ stored => stored
  · intro t member
    rcases mem_append.mp member with old | new
    · exact shielded.sound t old
    · rw [mem_singleton.mp new]
      exact ⟨runOnce_obeys w,by simp [Reaping.reading],by simp [Reaping.reading]⟩

lemma Shielded.dequeueAny (worker : Nat) (limit : Int) : Shielded env (act env s (.dequeueAny worker limit)) := by
  obtain ⟨taken,handed⟩ : ∃ taken,
      Store.HandedOut (now env s) s.shared.store.queue (handOut env s limit).2.queue (handOut env s limit).1 taken :=
    Store.dequeueAny_handedOut _ _ _ _ _
  have later : s.shared.tick ≤ (act env s (.dequeueAny worker limit)).shared.tick := Nat.le_succ _
  constructor
  · intro h member recent item stored
    rcases mem_append.mp member with old | new
    · have before := recent_before ordered later h recent
      apply shielded.hidden h old before item
      rw [← handed.others]
      · exact stored
      · intro l listed same
        obtain ⟨seen,found,visible,_⟩ := handed.seen l listed
        have key := same.symm.trans (s.shared.store.queue.lookup_key found).symm
        exact shielded.visible (s.shared.store.queue.lookup_mem found) le_rfl visible h old key before
    · obtain ⟨l,listed,rfl⟩ := mem_map.mp new
      obtain ⟨seen,_,_,leased⟩ := handed.seen l listed
      change (handOut env s limit).2.queue.lookup l.item.key = some item at stored
      rw [handed.leased l listed] at stored
      cases stored
      rw [leased]
      exact le_rfl
  · intro t member
    apply (shielded.sound t member).lasts ordered later
    intro h here
    rcases mem_append.mp here with old | new
    · exact .inl old
    · obtain ⟨l,_,rfl⟩ := mem_map.mp new
      exact .inr rfl

lemma Shielded.advance (i : Nat) (unraced : Unraced env s (.advance i)) : Shielded env (act env s (.advance i)) := by
  have step : Pool.Step Reaping.discipline (execOp env) s i (act env s (.advance i)) :=
    Pool.advance_step (fun t member => (shielded.sound t member).obeys) i
  generalize act env s (.advance i) = s' at step ⊢
  cases step with
  | idle => exact shielded
  | acts label op next found permitted continues =>
    have sound := shielded.sound _ (mem_of_getElem? found)
    have obeys := continues trivial
    have replaced : ∀ {label' : Reaping} {rest : Prog QueueOp.Res Unit},Sound env s ⟨label',rest⟩ →
        ∀ t ∈ s.threads.set i ⟨label',rest⟩,Sound env s t := by
      intro label' rest new t member
      rcases mem_or_eq_of_mem_set member with old | rfl
      · exact shielded.sound t old
      · exact new
    cases label with
    | started =>
      cases op with
      | clock =>
        apply shielded.quiet ordered (Nat.le_succ _)
        · exact fun _ member => member
        · exact fun _ _ _ _ stored => stored
        · refine replaced ⟨obeys,?_,?_⟩
          · intro reading read
            cases read
            exact le_rfl
          · intro _ _ item inside
            cases inside
      | leaseExpired leaseTimeout reading | releaseStep ns runID stepID => exact permitted.elim
    | read reading =>
      cases op with
      | clock => exact permitted.elim
      | leaseExpired leaseTimeout asked =>
        obtain ⟨positive,rfl⟩ := permitted
        have past := sound.reading asked rfl
        apply shielded.quiet ordered (Nat.le_succ _)
        · exact fun _ member => member
        · exact fun _ _ _ _ stored => stored
        · refine replaced ⟨obeys,sound.reading,?_⟩
          intro _ _ item inside h held same recent
          exact absurd recent (shielded.expired positive past inside h held same)
      | releaseStep ns runID stepID => exact permitted.elim
    | releasing reading pending =>
      cases pending with
      | nil => cases op <;> exact permitted.elim
      | cons item rest =>
        cases op with
        | clock | leaseExpired leaseTimeout asked => exact permitted.elim
        | releaseStep ns runID stepID =>
          obtain ⟨rfl,rfl,rfl⟩ := permitted
          simp only [Unraced,Pool.upcoming_of_found found] at unraced
          have free : ∀ h ∈ s.shared.held,h.key = item.key → ¬ Recent env s h := by
            intro h held same recent
            exact unraced h held same (sound.listed reading rfl item (by simp [Reaping.pending]) h held same recent) recent
          obtain ⟨tick,held,others⟩ := execOp_releaseStep env s.shared item.ns item.runID item.stepID
          have later : s.shared.tick ≤ (execOp env (.releaseStep item.ns item.runID item.stepID) s.shared).2.tick := by
            omega
          apply shielded.quiet ordered later
          · intro h member
            rw [held] at member
            exact member
          · intro h member recent other stored
            rw [held] at member
            rw [← others h.key (fun same => free h member same recent)]
            exact stored
          · refine replaced ⟨obeys,sound.reading,?_⟩
            intro again read other inside
            exact sound.listed again read other (mem_cons_of_mem _ inside)

lemma Shielded.act (c : Choice) (unraced : Unraced env s c) : Shielded env (act env s c) := by
  cases c with
  | enqueue item => exact shielded.enqueue ordered item unraced
  | dequeueAny worker limit => exact shielded.dequeueAny ordered worker limit
  | completeStep worker ns runID stepID leaseToken => exact shielded.completeStep ordered worker ns runID stepID leaseToken
  | reap w => exact shielded.reap ordered w
  | advance i => exact shielded.advance ordered i unraced

omit ordered in
lemma Shielded.exclusive (c : Choice) : Exclusive env s c := by
  cases c with
  | dequeueAny worker limit =>
    intro l taken h held same
    obtain ⟨_,handed⟩ := Store.dequeueAny_handedOut _ s.shared.store _ _ _
    obtain ⟨seen,found,visible,_⟩ := handed.seen l taken
    have key := same.trans (s.shared.store.queue.lookup_key found).symm
    exact shielded.visible (s.shared.store.queue.lookup_mem found) le_rfl visible h held key
  | _ => exact trivial

end Steps

def opening (store : Store) : System := ⟨{ store },[]⟩

/-- In every interleaving in which no item is leased between the reaper's clock
reading and its release, and none is enqueued while it is leased, every item is
handed out to one worker at a time. -/
theorem leases_exclusive (env : Env) (ordered : Monotone env.clock) (store : Store) (choices : List Choice)
    (unraced : Along (act env) (Unraced env) (opening store) choices) :
    Along (act env) (Exclusive env) (opening store) choices := by
  have start : Shielded env (opening store) := ⟨by simp [opening],by simp [opening]⟩
  exact Along.weaken (fun _ c shielded unraced => shielded.act ordered c unraced)
    (fun _ c shielded _ => shielded.exclusive c) start unraced

def job : QueueItem :=
  { runID := "r", ns := "default", stepID := "a", enqueuedAt := -1, visibleAt := -1, attempt := 1 }

/-- The first two operations take place in the first two seconds, the later ones from
102 seconds on. -/
def lateEnv : Env :=
  { Env.steady with clock := fun tick => if tick < 2 then tick * second else (tick + 100) * second }

lemma lateEnv_ordered : Monotone lateEnv.clock := by
  intro i j later
  have ticks : i ≤ j := by omega
  simp only [lateEnv,second]
  split_ifs <;> linarith

def calm : List Choice :=
  [.enqueue job,.dequeueAny 1 0,.reap (newLeaseReaper 0),.advance 0,.advance 0,.advance 0,
    .dequeueAny 2 0,.dequeueAny 3 0,.completeStep 2 "default" "r" "a" "lease-0"]

theorem calm_exclusive :
    Along (act lateEnv) (Unraced lateEnv) (opening .new) calm ∧
      Along (act lateEnv) (Exclusive lateEnv) (opening .new) calm := by
  have unraced : Along (act lateEnv) (Unraced lateEnv) (opening .new) calm := by decide
  exact ⟨unraced,leases_exclusive lateEnv lateEnv_ordered .new calm unraced⟩

/-- The first lease is long over when the reaper lists the item. The second worker
leases it, the reaper releases it, and the third worker is handed it two seconds
after the second one. -/
def racing : List Choice :=
  [.enqueue job,.dequeueAny 1 0,.reap (newLeaseReaper 0),.advance 0,.advance 0,.dequeueAny 2 0,.advance 0,
    .dequeueAny 3 0]

theorem racing_shared :
    Monotone lateEnv.clock ∧ ¬ Along (act lateEnv) (Exclusive lateEnv) (opening .new) racing :=
  ⟨lateEnv_ordered,by decide⟩

end Tempest.Reaper
