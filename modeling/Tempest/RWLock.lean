import Tempest.Lib.Handoff
import Tempest.Lib.Interaction

/-! The lock for readers and writers of `internal/lock`. Readers wait behind a writer that
holds the lock or waits for it; a writer that unlocks wakes all waiting readers or, if there
are none, the first waiting writer, and the last reader wakes the first waiting writer. The
callers are as those of the plain lock. -/
open List
namespace Tempest.Locks
open Handoff Interaction Function

inductive Kind
  | reader
  | writer
  deriving DecidableEq

instance : Fintype Kind := ⟨{.reader,.writer},fun kind => by cases kind <;> decide⟩

structure RWLock (C : Type) where
  readers : Int
  writerHeld : Bool
  writerWaiters : Int
  readerWaiters : List C
  writerQueue : List C
  phase : C → Phase Kind

inductive RWChoice (C : Type)
  | rlock (c : C)
  | lock (c : C)
  | receive (c : C)
  | cancel (c : C)
  | leave (c : C)
  | tryRLock (c : C)
  | tryLock (c : C)
  | runlock (c : C)
  | unlock (c : C)
  deriving DecidableEq

namespace RWLock

variable {C : Type} [DecidableEq C]

def new : RWLock C := ⟨0,false,0,[],[],fun _ => .fresh⟩

def put (l : RWLock C) (c : C) (p : Phase Kind) : RWLock C := { l with phase := Function.update l.phase c p }

def wakeWriter (l : RWLock C) : RWLock C :=
  match l.writerQueue with
  | [] => l
  | w :: rest =>
    { l with writerQueue := rest,writerHeld := true,writerWaiters := l.writerWaiters - 1 }.put w (l.phase w).signal

def wakeReaders (l : RWLock C) : List C → RWLock C
  | [] => l
  | r :: rest =>
    wakeReaders ({ l with readerWaiters := rest,readers := l.readers + 1 }.put r (l.phase r).signal) rest

def step (l : RWLock C) : RWChoice C → RWLock C
  | .rlock c =>
    match l.phase c with
    | .fresh =>
      if !l.writerHeld && l.writerWaiters == 0 then { l with readers := l.readers + 1 }.put c (.owner .reader)
      else { l with readerWaiters := l.readerWaiters ++ [c] }.put c (.waiting .reader false)
    | _ => l
  | .lock c =>
    match l.phase c with
    | .fresh =>
      if l.readers == 0 && !l.writerHeld then { l with writerHeld := true }.put c (.owner .writer)
      else
        { l with writerQueue := l.writerQueue ++ [c],writerWaiters := l.writerWaiters + 1 }.put c (.waiting .writer false)
    | _ => l
  | .receive c =>
    match l.phase c with
    | .waiting kind true => l.put c (.owner kind)
    | _ => l
  | .cancel c =>
    match l.phase c with
    | .waiting kind token => l.put c (.leaving kind token)
    | _ => l
  | .leave c =>
    match l.phase c with
    | .leaving .reader _ => { l with readerWaiters := l.readerWaiters.erase c }.put c .returned
    | .leaving .writer _ =>
      { l with writerQueue := l.writerQueue.erase c,writerWaiters := l.writerWaiters - 1 }.put c .returned
    | _ => l
  | .tryRLock c =>
    match l.phase c with
    | .fresh =>
      if l.writerHeld || decide (0 < l.writerWaiters) then l.put c .returned
      else { l with readers := l.readers + 1 }.put c (.owner .reader)
    | _ => l
  | .tryLock c =>
    match l.phase c with
    | .fresh =>
      if decide (0 < l.readers) || l.writerHeld then l.put c .returned
      else { l with writerHeld := true }.put c (.owner .writer)
    | _ => l
  | .runlock c =>
    match l.phase c with
    | .owner .reader =>
      let l := { l with readers := l.readers - 1 }.put c .returned
      if l.readers = 0 then l.wakeWriter else l
    | _ => l
  | .unlock c =>
    match l.phase c with
    | .owner .writer =>
      if !l.writerHeld then l.put c .returned
      else
        let l := { l with writerHeld := false }.put c .returned
        if l.readerWaiters ≠ [] then l.wakeReaders l.readerWaiters else l.wakeWriter
    | _ => l

/-- A writer owns the lock alone; the writers that wait are those in the queue, if no caller
is about to leave one; and while a caller waits, another one has the lock or is about to
get it. -/
def Sound (l : RWLock C) : Prop :=
  (∀ a b kind,l.phase a = .owner .writer → l.phase b = .owner kind → a = b) ∧
    ((∀ c kind token,l.phase c ≠ .leaving kind token) → l.writerWaiters = l.writerQueue.length) ∧
    ∀ c kind,l.phase c = .waiting kind false → ∃ d other,(l.phase d).holds other

/-- No caller gives up with the token in its channel, no token is sent to one that has given
up, and the last reader does not leave readers behind that wait for a writer that has given
up. -/
def Clean (l : RWLock C) : RWChoice C → Prop
  | .cancel c => ∀ kind,l.phase c ≠ .waiting kind true
  | .runlock c =>
    l.phase c = .owner .reader → l.readers = 1 →
      (∀ w ∈ l.writerQueue.head?,l.phase w ≠ .leaving .writer false) ∧
        (l.writerQueue = [] → ∀ r ∈ l.readerWaiters,l.phase r ≠ .waiting .reader false)
  | .unlock c =>
    l.phase c = .owner .writer →
      (∀ r ∈ l.readerWaiters,l.phase r ≠ .leaving .reader false) ∧
        (l.readerWaiters = [] → ∀ w ∈ l.writerQueue.head?,l.phase w ≠ .leaving .writer false)
  | _ => True

instance (l : RWLock C) (choice : RWChoice C) : Decidable (Clean l choice) := by
  cases choice <;> (unfold Clean; infer_instance)

/-- The counts are those of the callers, the queues have the callers that wait, and a writer
has the lock alone. -/
structure Core (l : RWLock C) : Prop where
  reading : ∃ n : Nat,l.readers = n ∧ Counted .reader n l.phase
  writing : Counted .writer (if l.writerHeld then 1 else 0) l.phase
  apart : l.writerHeld = true → l.readers = 0
  readersLined : Lined .reader l.readerWaiters l.phase
  writersLined : Lined .writer l.writerQueue l.phase
  waiters : l.writerWaiters = l.writerQueue.length
  taken : ∀ c kind,l.phase c ≠ .leaving kind true

/-- While nobody has the lock, nobody waits. -/
structure Inv (l : RWLock C) : Prop extends Core l where
  free : l.readers = 0 → l.writerHeld = false →
    l.writerQueue = [] ∧ ∀ r ∈ l.readerWaiters,l.phase r ≠ .waiting .reader false

omit [DecidableEq C] in
lemma new_inv : Inv (new : RWLock C) where
  reading := ⟨0,rfl,∅,fun c => ⟨nofun,by rintro (same | same) <;> cases same⟩,rfl⟩
  writing := ⟨∅,fun c => ⟨nofun,by rintro (same | same) <;> cases same⟩,rfl⟩
  apart := nofun
  readersLined := ⟨fun c => ⟨nofun,by rintro (same | same) <;> cases same⟩,nodup_nil⟩
  writersLined := ⟨fun c => ⟨nofun,by rintro (same | same) <;> cases same⟩,nodup_nil⟩
  waiters := rfl
  taken c kind := nofun
  free _ _ := ⟨rfl,nofun⟩

variable {l : RWLock C} {c : C} {p : Phase Kind}

lemma Core.aside (core : Core l) (holds : ∀ kind,p.holds kind ↔ (l.phase c).holds kind)
    (queued : ∀ kind,p.queued kind ↔ (l.phase c).queued kind) (fine : ∀ kind,p ≠ .leaving kind true) : Core (l.put c p) := by
  obtain ⟨n,readers,counted⟩ := core.reading
  exact ⟨⟨n,readers,counted.keep (holds .reader)⟩,core.writing.keep (holds .writer),core.apart,
    core.readersLined.keep (queued .reader),core.writersLined.keep (queued .writer),core.waiters,
    fun d kind => update_ne (fine kind) (core.taken d kind)⟩

section
omit [DecidableEq C]

lemma Core.readers_nonneg (core : Core l) : 0 ≤ l.readers := by
  obtain ⟨n,readers,-⟩ := core.reading
  omega

lemma Core.reader (core : Core l) (holds : (l.phase c).holds .reader) : 0 < l.readers := by
  obtain ⟨n,readers,counted⟩ := core.reading
  have := counted.pos holds
  omega

lemma Core.unheld (core : Core l) (holds : (l.phase c).holds .reader) : l.writerHeld = false := by
  by_contra held
  have unread := core.apart (by simpa using held)
  have read := core.reader holds
  omega

lemma Core.untaken (core : Core l) {kind : Kind} {token : Bool} (phase : l.phase c = .leaving kind token) :
    token = false := by
  cases token with
  | false => rfl
  | true => exact absurd phase (core.taken c kind)

lemma Core.writer (core : Core l) (holds : (l.phase c).holds .writer) : l.writerHeld = true := by
  have positive := core.writing.pos holds
  split_ifs at positive with held
  · exact held
  · cases positive

lemma Core.no_writer (core : Core l) (free : l.writerHeld = false) : Counted .writer 0 l.phase := by
  have writing := core.writing
  rw [free] at writing
  exact writing

end

lemma Core.read (core : Core l) (free : l.writerHeld = false) (before : ∀ kind,¬(l.phase c).holds kind)
    (unqueued : ∀ kind,¬(l.phase c).queued kind) : Core ({ l with readers := l.readers + 1 }.put c (.owner .reader)) := by
  obtain ⟨n,readers,counted⟩ := core.reading
  refine ⟨⟨n + 1,?_,counted.gain (before .reader) (.inl rfl)⟩,core.writing.keep ?_,?_,core.readersLined.keep ?_,
    core.writersLined.keep ?_,core.waiters,fun d kind => update_ne nofun (core.taken d kind)⟩
  · rw [readers]
    rfl
  · exact ⟨by simp [Phase.holds],fun holds => absurd holds (before .writer)⟩
  · intro held
    rw [free] at held
    cases held
  · exact ⟨by simp [Phase.queued],fun queued => absurd queued (unqueued .reader)⟩
  · exact ⟨by simp [Phase.queued],fun queued => absurd queued (unqueued .writer)⟩

lemma Core.write (core : Core l) (unread : l.readers = 0) (free : l.writerHeld = false)
    (before : ∀ kind,¬(l.phase c).holds kind) (unqueued : ∀ kind,¬(l.phase c).queued kind) :
    Core ({ l with writerHeld := true }.put c (.owner .writer)) := by
  obtain ⟨n,readers,counted⟩ := core.reading
  refine ⟨⟨n,readers,counted.keep ?_⟩,(core.no_writer free).gain (before .writer) (.inl rfl),fun _ => unread,
    core.readersLined.keep ?_,core.writersLined.keep ?_,core.waiters,fun d kind => update_ne nofun (core.taken d kind)⟩
  · exact ⟨by simp [Phase.holds],fun holds => absurd holds (before .reader)⟩
  · exact ⟨by simp [Phase.queued],fun queued => absurd queued (unqueued .reader)⟩
  · exact ⟨by simp [Phase.queued],fun queued => absurd queued (unqueued .writer)⟩

lemma Core.unread (core : Core l) (owner : l.phase c = .owner .reader) :
    Core ({ l with readers := l.readers - 1 }.put c .returned) := by
  obtain ⟨n,readers,counted⟩ := core.reading
  have positive := counted.pos (.inl owner)
  obtain ⟨n,rfl⟩ : ∃ m,n = m + 1 := ⟨n - 1,by omega⟩
  have unheld := core.unheld (.inl owner)
  refine ⟨⟨n,?_,counted.lose (.inl owner) (by simp [Phase.holds])⟩,core.writing.keep ?_,?_,core.readersLined.keep ?_,
    core.writersLined.keep ?_,core.waiters,fun d kind => update_ne nofun (core.taken d kind)⟩
  · rw [put,readers]
    simp
  · simp [owner,Phase.holds]
  · intro held
    rw [unheld] at held
    cases held
  all_goals simp [owner,Phase.queued]

lemma Core.unwrite (core : Core l) (owner : l.phase c = .owner .writer) :
    Core ({ l with writerHeld := false }.put c .returned) := by
  have held := core.writer (.inl owner)
  have writing := core.writing
  rw [held] at writing
  obtain ⟨n,readers,counted⟩ := core.reading
  refine ⟨⟨n,readers,counted.keep ?_⟩,writing.lose (.inl owner) (by simp [Phase.holds]),nofun,core.readersLined.keep ?_,
    core.writersLined.keep ?_,core.waiters,fun d kind => update_ne nofun (core.taken d kind)⟩
  · simp [owner,Phase.holds]
  all_goals simp [owner,Phase.queued]

lemma Core.wakeWriter (core : Core l) (unread : l.readers = 0) (free : l.writerHeld = false)
    (clean : ∀ w ∈ l.writerQueue.head?,l.phase w ≠ .leaving .writer false) :
    Core l.wakeWriter ∧ (l.writerQueue ≠ [] → l.wakeWriter.writerHeld = true) := by
  rw [RWLock.wakeWriter]
  cases queue : l.writerQueue with
  | nil => exact ⟨core,fun nonempty => absurd rfl nonempty⟩
  | cons w rest =>
    have lined := core.writersLined
    have waiters := core.waiters
    rw [queue] at lined waiters
    have waits :=
      ((lined.queue w).mp mem_cons_self).resolve_right (clean w (by rw [queue]; rfl))
    dsimp only
    rw [waits]
    obtain ⟨n,readers,counted⟩ := core.reading
    refine ⟨⟨⟨n,readers,counted.keep ?_⟩,?_,fun _ => unread,core.readersLined.keep ?_,
      lined.pop (by simp [Phase.queued,Phase.signal]),?_,
      fun d kind => update_ne (by simp [Phase.signal]) (core.taken d kind)⟩,fun _ => rfl⟩
    · simp [waits,Phase.holds,Phase.signal]
    · exact (core.no_writer free).gain ((core.no_writer free).none_holds w) (.inr rfl)
    · simp [waits,Phase.queued,Phase.signal]
    · rw [put,waiters]
      simp

lemma Core.wakeReaders {readers : List C} (core : Core l) (queue : l.readerWaiters = readers)
    (free : l.writerHeld = false) (clean : ∀ r ∈ readers,l.phase r ≠ .leaving .reader false) :
    Core (l.wakeReaders readers) ∧ (l.wakeReaders readers).readers = l.readers + readers.length ∧
      (l.wakeReaders readers).writerHeld = false := by
  induction readers generalizing l with
  | nil => exact ⟨core,by simp [RWLock.wakeReaders],free⟩
  | cons r rest ih =>
    have lined := core.readersLined
    rw [queue] at lined
    have waits :=
      ((lined.queue r).mp mem_cons_self).resolve_right (clean r mem_cons_self)
    obtain ⟨n,readers,counted⟩ := core.reading
    have next : Core ({ l with readerWaiters := rest,readers := l.readers + 1 }.put r (l.phase r).signal) := by
      rw [waits]
      refine ⟨⟨n + 1,?_,counted.gain ?_ (.inr rfl)⟩,core.writing.keep ?_,?_,lined.pop ?_,core.writersLined.keep ?_,
        core.waiters,fun d kind => update_ne (by simp [Phase.signal]) (core.taken d kind)⟩
      · rw [readers]
        rfl
      · simp [waits,Phase.holds]
      · simp [waits,Phase.holds,Phase.signal]
      · intro held
        rw [free] at held
        cases held
      · simp [Phase.queued,Phase.signal]
      · simp [waits,Phase.queued,Phase.signal]
    have present : ∀ r' ∈ rest,update l.phase r (l.phase r).signal r' ≠ .leaving .reader false := by
      intro r' member
      have other : r' ≠ r := by
        rintro rfl
        exact (nodup_cons.mp lined.distinct).1 member
      rw [update_of_ne other]
      exact clean r' (mem_cons_of_mem r member)
    obtain ⟨done,count,unheld⟩ := ih next rfl free present
    rw [RWLock.wakeReaders]
    refine ⟨done,?_,unheld⟩
    rw [count,put,length_cons]
    push_cast
    omega

lemma Inv.aside (inv : Inv l) (holds : ∀ kind,p.holds kind ↔ (l.phase c).holds kind)
    (queued : ∀ kind,p.queued kind ↔ (l.phase c).queued kind) (fine : ∀ kind,p ≠ .leaving kind true)
    (still : p ≠ .waiting .reader false) : Inv (l.put c p) := by
  refine ⟨inv.toCore.aside holds queued fine,fun unread free => ⟨(inv.free unread free).1,fun r member => ?_⟩⟩
  rw [put]
  dsimp only
  by_cases here : r = c
  · rw [here,update_self]
    exact still
  · rw [update_of_ne here]
    exact (inv.free unread free).2 r member

section
omit [DecidableEq C]

lemma Inv.of_reader (core : Core l) (read : 0 < l.readers) : Inv l :=
  ⟨core,fun unread => absurd unread (by omega)⟩

lemma Inv.of_writer (core : Core l) (held : l.writerHeld = true) : Inv l :=
  ⟨core,fun _ free => absurd (held.symm.trans free) (by decide)⟩

end

lemma Inv.read (inv : Inv l) (phase : l.phase c = .fresh) (free : l.writerHeld = false) :
    Inv ({ l with readers := l.readers + 1 }.put c (.owner .reader)) := by
  refine .of_reader (inv.toCore.read free (by simp [phase,Phase.holds]) (by simp [phase,Phase.queued])) ?_
  have := inv.readers_nonneg
  rw [put]
  dsimp only
  omega

lemma Inv.write (inv : Inv l) (phase : l.phase c = .fresh) (unread : l.readers = 0) (free : l.writerHeld = false) :
    Inv ({ l with writerHeld := true }.put c (.owner .writer)) :=
  .of_writer (inv.toCore.write unread free (by simp [phase,Phase.holds]) (by simp [phase,Phase.queued])) rfl

lemma rlock_inv (inv : Inv l) (c : C) : Inv (step l (.rlock c)) := by
  rw [step]
  split
  next phase =>
    split_ifs with open'
    · exact inv.read phase (by simp_all)
    · obtain ⟨n,readers,counted⟩ := inv.reading
      refine ⟨⟨⟨n,readers,counted.keep ?_⟩,inv.writing.keep ?_,inv.apart,
        inv.readersLined.join (by simp [phase,Phase.queued]) (.inl rfl),inv.writersLined.keep ?_,inv.waiters,
        fun d kind => update_ne nofun (inv.taken d kind)⟩,fun unread free => ?_⟩
      · simp [phase,Phase.holds]
      · simp [phase,Phase.holds]
      · simp [phase,Phase.queued]
      -- a free lock has no waiting writer, so the call would not have waited
      · have waiters := inv.waiters
        rw [(inv.free unread free).1] at waiters
        have unheld : l.writerHeld = false := free
        simp [unheld,waiters] at open'
  next => exact inv

lemma lock_inv (inv : Inv l) (c : C) : Inv (step l (.lock c)) := by
  rw [step]
  split
  next phase =>
    split_ifs with open'
    · simp only [Bool.and_eq_true,beq_iff_eq,Bool.not_eq_true'] at open'
      exact inv.write phase open'.1 open'.2
    · obtain ⟨n,readers,counted⟩ := inv.reading
      refine ⟨⟨⟨n,readers,counted.keep ?_⟩,inv.writing.keep ?_,inv.apart,inv.readersLined.keep ?_,
        inv.writersLined.join (by simp [phase,Phase.queued]) (.inl rfl),?_,fun d kind => update_ne nofun (inv.taken d kind)⟩,
        fun unread free => ?_⟩
      · simp [phase,Phase.holds]
      · simp [phase,Phase.holds]
      · simp [phase,Phase.queued]
      · rw [put]
        rw [inv.waiters]
        simp
      · have unread' : l.readers = 0 := unread
        have unheld : l.writerHeld = false := free
        simp [unheld,unread'] at open'
  next => exact inv

lemma receive_inv (inv : Inv l) (c : C) : Inv (step l (.receive c)) := by
  rw [step]
  split
  next kind phase => exact inv.aside (by simp [phase,Phase.holds]) (by simp [phase,Phase.queued]) nofun nofun
  next => exact inv

lemma cancel_inv (inv : Inv l) {c : C} (clean : Clean l (.cancel c)) : Inv (step l (.cancel c)) := by
  rw [step]
  split
  next kind token phase =>
    cases token with
    | true => exact absurd phase (clean kind)
    | false => exact inv.aside (by simp [phase,Phase.holds]) (by simp [phase,Phase.queued]) nofun nofun
  next => exact inv

lemma leave_inv (inv : Inv l) (c : C) : Inv (step l (.leave c)) := by
  rw [step]
  split
  next token phase =>
    obtain rfl := inv.untaken phase
    obtain ⟨n,readers,counted⟩ := inv.reading
    refine ⟨⟨⟨n,readers,counted.keep ?_⟩,inv.writing.keep ?_,inv.apart,inv.readersLined.leave (by simp [Phase.queued]),
      inv.writersLined.keep ?_,inv.waiters,fun d kind => update_ne nofun (inv.taken d kind)⟩,
      fun unread free => ⟨(inv.free unread free).1,?_⟩⟩
    · simp [phase,Phase.holds]
    · simp [phase,Phase.holds]
    · simp [phase,Phase.queued]
    · intro r member
      have other : r ≠ c := by
        rintro rfl
        exact inv.readersLined.distinct.not_mem_erase member
      rw [put]
      dsimp only
      rw [update_of_ne other]
      exact (inv.free unread free).2 r (mem_of_mem_erase member)
  next token phase =>
    obtain rfl := inv.untaken phase
    have queued := (inv.writersLined.queue c).mpr (.inr phase)
    obtain ⟨n,readers,counted⟩ := inv.reading
    refine ⟨⟨⟨n,readers,counted.keep ?_⟩,inv.writing.keep ?_,inv.apart,inv.readersLined.keep ?_,
      inv.writersLined.leave (by simp [Phase.queued]),?_,fun d kind => update_ne nofun (inv.taken d kind)⟩,
      fun unread free => ?_⟩
    · simp [phase,Phase.holds]
    · simp [phase,Phase.holds]
    · simp [phase,Phase.queued]
    · have positive := length_pos_of_mem queued
      rw [put]
      dsimp only
      rw [inv.waiters,length_erase_of_mem queued]
      omega
    · rw [(inv.free unread free).1] at queued
      cases queued
  next => exact inv

lemma tryRLock_inv (inv : Inv l) (c : C) : Inv (step l (.tryRLock c)) := by
  rw [step]
  split
  next phase =>
    split_ifs with refused
    · exact inv.aside (by simp [phase,Phase.holds]) (by simp [phase,Phase.queued]) nofun nofun
    · exact inv.read phase (by simp_all)
  next => exact inv

lemma tryLock_inv (inv : Inv l) (c : C) : Inv (step l (.tryLock c)) := by
  rw [step]
  split
  next phase =>
    split_ifs with refused
    · exact inv.aside (by simp [phase,Phase.holds]) (by simp [phase,Phase.queued]) nofun nofun
    · simp only [Bool.or_eq_true,decide_eq_true_eq,not_or,Bool.not_eq_true] at refused
      have := inv.readers_nonneg
      exact inv.write phase (by omega) refused.2
  next => exact inv

lemma Inv.wakeWriter (core : Core l) (unread : l.readers = 0) (free : l.writerHeld = false)
    (present : ∀ w ∈ l.writerQueue.head?,l.phase w ≠ .leaving .writer false)
    (none_ : l.writerQueue = [] → ∀ r ∈ l.readerWaiters,l.phase r ≠ .waiting .reader false) : Inv l.wakeWriter := by
  obtain ⟨woken,held⟩ := core.wakeWriter unread free present
  by_cases queue : l.writerQueue = []
  · have same : l.wakeWriter = l := by
      rw [RWLock.wakeWriter,queue]
    rw [same]
    exact ⟨core,fun _ _ => ⟨queue,none_ queue⟩⟩
  · exact .of_writer woken (held queue)

lemma runlock_inv (inv : Inv l) {c : C} (clean : Clean l (.runlock c)) : Inv (step l (.runlock c)) := by
  rw [step]
  split
  next owner =>
    have core := inv.toCore.unread owner
    dsimp only
    split_ifs with last
    · have last' : l.readers = 1 := by
        have : l.readers - 1 = 0 := last
        omega
      have free := inv.unheld (.inl owner)
      obtain ⟨present,none_⟩ := clean owner last'
      exact .wakeWriter core last free (fun w first => update_ne nofun (present w first))
        (fun queue r member => update_ne nofun (none_ queue r member))
    · exact .of_reader core (lt_of_le_of_ne core.readers_nonneg (Ne.symm last))
  next => exact inv

lemma unlock_inv (inv : Inv l) {c : C} (clean : Clean l (.unlock c)) : Inv (step l (.unlock c)) := by
  rw [step]
  split
  next owner =>
    have held := inv.writer (.inl owner)
    have core := inv.toCore.unwrite owner
    obtain ⟨readersPresent,writerPresent⟩ := clean owner
    rw [if_neg (by simp [held])]
    dsimp only
    split_ifs with waiting
    · obtain ⟨woken,count,-⟩ :=
        core.wakeReaders rfl rfl (fun r member => update_ne nofun (readersPresent r member))
      have some_ := length_pos_of_ne_nil waiting
      have := core.readers_nonneg
      refine .of_reader woken ?_
      omega
    · have queue := not_not.mp waiting
      refine .wakeWriter core (inv.apart held) rfl
        (fun w first => update_ne nofun (writerPresent queue w first)) (fun _ r member => ?_)
      have queued := member
      rw [queue] at queued
      cases queued
  next => exact inv

lemma step_inv (inv : Inv l) {choice : RWChoice C} (clean : Clean l choice) : Inv (l.step choice) := by
  cases choice with
  | rlock c => exact rlock_inv inv c
  | lock c => exact lock_inv inv c
  | receive c => exact receive_inv inv c
  | cancel c => exact cancel_inv inv clean
  | leave c => exact leave_inv inv c
  | tryRLock c => exact tryRLock_inv inv c
  | tryLock c => exact tryLock_inv inv c
  | runlock c => exact runlock_inv inv clean
  | unlock c => exact unlock_inv inv clean

section
omit [DecidableEq C]

lemma Core.held (core : Core l) (held : l.writerHeld = true) : ∃ d,(l.phase d).holds .writer := by
  obtain ⟨holders,all,card⟩ := core.writing
  rw [held] at card
  obtain ⟨d,member⟩ := Finset.card_pos.mp (by rw [card]; exact Nat.one_pos)
  exact ⟨d,(all d).mp member⟩

lemma Core.read_by (core : Core l) (read : l.readers ≠ 0) : ∃ d,(l.phase d).holds .reader := by
  obtain ⟨n,readers,holders,all,card⟩ := core.reading
  obtain ⟨d,member⟩ := Finset.card_pos.mp (by rw [card]; omega)
  exact ⟨d,(all d).mp member⟩

end

lemma Inv.sound (inv : Inv l) : Sound l := by
  refine ⟨fun a b kind writer other => ?_,fun _ => inv.waiters,fun c kind waits => ?_⟩
  · have held := inv.writer (.inl writer)
    have writing := inv.writing
    rw [held] at writing
    cases kind with
    | writer => exact writing.unique (.inl writer) (.inl other)
    | reader =>
      have read := inv.reader (.inl other)
      have unread := inv.apart held
      omega
  · by_contra nobody
    have unread : l.readers = 0 := by
      by_contra read
      obtain ⟨d,holds⟩ := inv.read_by read
      exact nobody ⟨d,.reader,holds⟩
    have free : l.writerHeld = false := by
      by_contra held
      obtain ⟨d,holds⟩ := inv.held (by simpa using held)
      exact nobody ⟨d,.writer,holds⟩
    obtain ⟨writers,readers⟩ := inv.free unread free
    cases kind with
    | writer =>
      have queued := (inv.writersLined.queue c).mpr (.inl waits)
      rw [writers] at queued
      cases queued
    | reader => exact readers c ((inv.readersLined.queue c).mpr (.inl waits)) waits

/-- In every run in which no caller gives up with the token in its channel, no token is sent
to a caller that has given up and no reader is left behind by the last reader, the lock is
sound in every state. -/
theorem sound_of_clean (choices : List (RWChoice C)) (clean : Along step Clean new choices) :
    Throughout step Sound (new : RWLock C) choices := by
  have kept : Throughout step Inv new choices :=
    Along.throughout (fun _ _ inv clean => step_inv inv clean) new_inv clean
  exact kept.mono (fun _ inv => inv.sound)

/-- A writer waits for a reader, and a reader behind the writer. -/
theorem handed_on :
    Throughout step Sound (new : RWLock (Fin 3))
      [.rlock 0,.lock 1,.rlock 2,.runlock 0,.receive 1,.unlock 1,.receive 2,.runlock 2] :=
  sound_of_clean _ (by decide)

/-- A writer that is cancelled after it was granted the lock is counted twice, and a reader
that waited behind a cancelled writer is left behind. -/
theorem miscounted_and_stranded :
    ¬Throughout step Sound (new : RWLock (Fin 2)) [.lock 0,.lock 1,.unlock 0,.cancel 1,.leave 1] ∧
    ¬Throughout step Sound (new : RWLock (Fin 3)) [.rlock 0,.lock 1,.rlock 2,.cancel 1,.leave 1,.runlock 0] := by
  refine ⟨fun throughout => ?_,fun throughout => ?_⟩
  · have counted := (throughout _ prefix_rfl).2.1
    revert counted
    decide
  · have handed := (throughout _ prefix_rfl).2.2 2 .reader
    revert handed
    decide


end RWLock

end Tempest.Locks
