import Tempest.TokenBucket
import Tempest.Lib.Locking

/-! The mutexes of the token bucket. A release holds the lease's mutex when it takes the
bucket's, the reaper holds the bucket's when it takes that of an expired lease. Each taking
and each releasing of a mutex is a step, and what is done under it is a step in between. -/
namespace Tempest.TokenBucket.Threads
open Interaction Locking Function

inductive Mutex where
  | bucket
  | lease (p : Nat)
  deriving DecidableEq

structure Wanted (I : Type) where
  id : I
  tenant : String
  n : ℚ
  ttl : Int

/-- What is done under the bucket's mutex alone. -/
inductive BucketJob (I : Type) where
  | tryAcquire (n : ℚ)
  | acquire (wanted : Wanted I)
  | register (lease : Lease I)
  | reap (order : RangeOrder I)

inductive LeaseJob where
  | release
  | renew (ttl : Int)

/-- How far the reaper is: its time, the entries still to be visited, and what it has
counted. -/
structure Sweep (I : Type) where
  now : Time
  todo : List (I × Nat)
  expiredCount : Nat
  reclaimedTokens : ℚ

inductive After (I : Type) where
  | done
  | sleep (wanted : Wanted I)
  | register (lease : Lease I)

/-- Where a goroutine is. The names with `want` wait for a mutex, those with `out` are about
to release one. -/
inductive Phase (I : Type) where
  | idle
  | sleeping (wanted : Wanted I)
  | wantBucket (job : BucketJob I)
  | inBucket (job : BucketJob I)
  | outBucket (after : After I)
  | wantLease (p : Nat) (job : LeaseJob)
  | inLease (p : Nat) (job : LeaseJob)
  | outLease (p : Nat)
  | wantReturn (p : Nat)
  | inReturn (p : Nat)
  | outReturn (p : Nat)
  | reaping (sweep : Sweep I)
  | wantMark (sweep : Sweep I) (entry : I × Nat)
  | inMark (sweep : Sweep I) (entry : I × Nat)
  | outMark (sweep : Sweep I) (entry : I × Nat)

namespace Phase

variable {I : Type}

def held : Phase I → List Mutex
  | idle | sleeping _ | wantBucket _ | wantLease _ _ => []
  | inBucket _ | outBucket _ | reaping _ | wantMark _ _ => [.bucket]
  | inLease p _ | outLease p | wantReturn p => [.lease p]
  | inReturn p | outReturn p => [.bucket,.lease p]
  | inMark _ entry | outMark _ entry => [.lease entry.2,.bucket]

def wants : Phase I → Option Mutex
  | wantBucket _ | wantReturn _ => some .bucket
  | wantLease p _ => some (.lease p)
  | wantMark _ entry => some (.lease entry.2)
  | _ => none

def releasing : Phase I → Option Nat
  | inLease p .release | wantReturn p => some p
  | _ => none

def marks : Phase I → Option Nat
  | wantMark _ entry => some entry.2
  | _ => none

def takes : Phase I → Option Nat
  | wantLease p .release => some p
  | _ => none

variable {phase : Phase I} {p : Nat}

lemma releasing_held (releasing : phase.releasing = some p) : .lease p ∈ phase.held := by
  cases phase with
  | inLease q job => cases job <;> simp_all [Phase.releasing,Phase.held]
  | wantReturn q => simp_all [Phase.releasing,Phase.held]
  | _ => cases releasing

lemma marks_held (marks : phase.marks = some p) : .bucket ∈ phase.held ∧ phase.releasing = none := by
  cases phase with
  | wantMark sweep entry => exact ⟨List.mem_cons_self,rfl⟩
  | _ => cases marks

lemma waits_and_holds {m m' : Mutex} (waits : phase.wants = some m) (holds : m' ∈ phase.held) :
    (∃ p,phase.releasing = some p ∧ m = .bucket ∧ m' = .lease p) ∨ ∃ p,phase.marks = some p ∧ m = .lease p ∧ m' = .bucket := by
  cases phase with
  | wantReturn p => exact .inl ⟨p,rfl,(Option.some.inj waits).symm,List.mem_singleton.mp holds⟩
  | wantMark sweep entry => exact .inr ⟨entry.2,rfl,(Option.some.inj waits).symm,List.mem_singleton.mp holds⟩
  | wantBucket job | wantLease p job => cases holds
  | _ => cases waits

end Phase

structure State (I G : Type) where
  store : Store I
  locks : Locks G Mutex (Phase I)

inductive Operation (I : Type) where
  | tryAcquire (n : ℚ)
  | lease (wanted : Wanted I) (now : Time)
  | release (p : Nat)
  | renew (p : Nat) (ttl : Int)
  | reapExpiredLeases (order : RangeOrder I)

/-- A goroutine calls an operation, or takes its next step. The step is told the time, twice
as it may ask twice, and whether the context is cancelled. -/
inductive Choice (I G : Type) where
  | call (g : G) (operation : Operation I)
  | advance (g : G) (now later : Time) (cancelled : Bool)

section system

variable {I G : Type}

def Wanted.lease (wanted : Wanted I) (now : Time) : Lease I := ⟨wanted.id,wanted.tenant,wanted.n,now + wanted.ttl,false⟩

def State.new (cfg : Config) (now : Time) : State I G := ⟨.new cfg now,⟨fun _ => none,fun _ => .idle⟩⟩

def begin (b : Bucket I) : Operation I → Phase I
  | .tryAcquire n => if n ≤ 0 then .idle else .wantBucket (.tryAcquire n)
  | .lease wanted now =>
    if wanted.n ≤ 0 then .wantBucket (.register (wanted.lease now))
    else if b.cfg.capacity < wanted.n then .idle
    else .wantBucket (.acquire wanted)
  | .release p => .wantLease p .release
  | .renew p ttl => .wantLease p (.renew ttl)
  | .reapExpiredLeases order => .wantBucket (.reap order)

def expired (s : Store I) (now : Time) (entry : I × Nat) : Bool :=
  match s.objects[entry.2]? with
  | none => false
  | some l => l.expiresAt < now

def mark (s : Store I) (p : Nat) : Store I :=
  match s.objects[p]? with
  | none => s
  | some l => { s with objects := s.objects.set p { l with released := true } }

def turns (s : Store I) : Phase I → Option Nat
  | .reaping ⟨now,entry :: _,_,_⟩ => if expired s now entry then some entry.2 else none
  | _ => none

def inLease (s : Store I) (p : Nat) (now later : Time) : LeaseJob → Store I × Phase I
  | .renew ttl => ((s.renew p now later ttl).2,.outLease p)
  | .release =>
    match s.objects[p]? with
    | none => (s,.outLease p)
    | some l => if l.released then (s,.outLease p) else (mark s p,.wantReturn p)

/-- The reaper between two mutexes: done, past an entry, or on to the mutex of an expired
lease. -/
def reap (s : Store I) (sweep : Sweep I) : Store I × Phase I :=
  match sweep.todo with
  | [] => (s.reclaim sweep.now sweep.expiredCount sweep.reclaimedTokens,.outBucket .done)
  | entry :: todo =>
    if expired s sweep.now entry then (s,.wantMark { sweep with todo } entry) else (s,.reaping { sweep with todo })

def After.phase : After I → Phase I
  | .done => .idle
  | .sleep wanted => .sleeping wanted
  | .register lease => .wantBucket (.register lease)

/-- A release takes a lease's mutex only when the reaper does not wait for it, and the reaper
turns to an expired lease only when no release holds its mutex and may still have to give
the tokens back. -/
def Clean (s : State I G) : Choice I G → Prop
  | .call _ _ => True
  | .advance g _ _ _ =>
    (∀ p ∈ (s.locks.phase g).takes, s.locks.owner (.lease p) = none →
      ∀ h ∈ s.locks.owner .bucket, (s.locks.phase h).marks ≠ some p) ∧
    ∀ p ∈ turns s.store (s.locks.phase g), ∀ h ∈ s.locks.owner (.lease p), (s.locks.phase h).releasing ≠ some p

instance (s : State I G) (choice : Choice I G) : Decidable (Clean s choice) := by
  cases choice <;> (unfold Clean; infer_instance)

def Sound (s : State I G) : Prop := ∀ g h, g ≠ h → ¬Crossed Phase.wants s.locks g h

/-- The owners are those that the phases tell, and no release has the mutex that the reaper
waits for and still wants the bucket's. -/
structure Inv (s : State I G) : Prop where
  consistent : Consistent Phase.held s.locks
  apart : ∀ x y p, (s.locks.phase x).releasing = some p → (s.locks.phase y).marks ≠ some p

lemma Inv.sound {s : State I G} (inv : Inv s) : Sound s := by
  rintro g h - ⟨m,m',mine,hers,yours,his⟩
  have holds := (inv.consistent g m).mp mine
  have holds' := (inv.consistent h m').mp yours
  rcases Phase.waits_and_holds his holds with ⟨p,releasing,rfl,rfl⟩ | ⟨p,marks,rfl,rfl⟩
  · rcases Phase.waits_and_holds hers holds' with ⟨q,-,same,-⟩ | ⟨q,marks,same,-⟩
    · cases same
    · cases same
      exact inv.apart g h p releasing marks
  · rcases Phase.waits_and_holds hers holds' with ⟨q,releasing,-,same⟩ | ⟨q,-,same,-⟩
    · cases same
      exact inv.apart h g p releasing marks
    · cases same

lemma inLease_phase (s : Store I) (p : Nat) (now later : Time) (job : LeaseJob) :
    (inLease s p now later job).2.held = [.lease p] ∧ (inLease s p now later job).2.marks = none ∧
      ∀ q,(inLease s p now later job).2.releasing = some q → job = .release ∧ q = p := by
  cases job with
  | renew ttl => exact ⟨rfl,rfl,fun _ some => by cases some⟩
  | release =>
    rw [inLease]
    cases s.objects[p]? with
    | none => exact ⟨rfl,rfl,fun _ some => by cases some⟩
    | some l =>
      dsimp only
      split_ifs
      · exact ⟨rfl,rfl,fun _ some => by cases some⟩
      · exact ⟨rfl,rfl,fun _ some => ⟨rfl,(Option.some.inj some).symm⟩⟩

lemma reap_phase (s : Store I) (sweep : Sweep I) :
    (reap s sweep).2.held = [.bucket] ∧ (reap s sweep).2.releasing = none ∧
      ∀ p,(reap s sweep).2.marks = some p → turns s (.reaping sweep) = some p := by
  obtain ⟨now,todo,count,sum⟩ := sweep
  cases todo with
  | nil => exact ⟨rfl,rfl,fun _ some => by cases some⟩
  | cons entry todo =>
    rw [reap,turns]
    dsimp only
    split_ifs
    · exact ⟨rfl,rfl,fun _ some => some⟩
    · exact ⟨rfl,rfl,fun _ some => by cases some⟩

section moves

variable [DecidableEq G]

/-- What a step does to the mutexes and the phases. -/
inductive Moves (s : State I G) (g : G) : Locks G Mutex (Phase I) → Prop
  | stay : Moves s g s.locks
  | goto (next : Phase I) (same : next.held = (s.locks.phase g).held)
      (release : ∀ p, next.releasing = some p → (s.locks.phase g).releasing = some p)
      (mark : ∀ p, next.marks = some p → turns s.store (s.locks.phase g) = some p) : Moves s g (s.locks.goto g next)
  | lock (m : Mutex) (next : Phase I) (free : s.locks.owner m = none) (more : next.held = m :: (s.locks.phase g).held)
      (release : ∀ p, next.releasing = some p → (s.locks.phase g).takes = some p ∧ m = .lease p)
      (mark : next.marks = none) : Moves s g (s.locks.lock g m next)
  | unlock (m : Mutex) (next : Phase I) (less : (s.locks.phase g).held = m :: next.held) (gone : m ∉ next.held)
      (release : next.releasing = none) (mark : next.marks = none) : Moves s g (s.locks.unlock g m next)

variable {s : State I G} {g : G}

lemma Moves.tryLock (m : Mutex) (next : Phase I) (more : next.held = m :: (s.locks.phase g).held)
    (release : ∀ p,next.releasing = some p → (s.locks.phase g).takes = some p ∧ m = .lease p) (mark : next.marks = none) :
    Moves s g (s.locks.lock g m next) := by
  by_cases free : s.locks.owner m = none
  · exact .lock m next free more release mark
  · rw [Locks.lock,if_neg free]
    exact .stay

lemma Moves.plain (next : Phase I) (same : next.held = (s.locks.phase g).held) (release : next.releasing = none)
    (mark : next.marks = none) : Moves s g (s.locks.goto g next) :=
  .goto next same (fun _ some => by rw [release] at some; cases some) (fun _ some => by rw [mark] at some; cases some)

lemma apart_update {phases : G → Phase I} {next : Phase I}
    (apart : ∀ x y p,(phases x).releasing = some p → (phases y).marks ≠ some p)
    (mine : ∀ y p,next.releasing = some p → (phases y).marks ≠ some p)
    (others : ∀ x p,(phases x).releasing = some p → next.marks ≠ some p) (x y : G) (p : Nat)
    (releasing : (update phases g next x).releasing = some p) : (update phases g next y).marks ≠ some p := by
  intro marks
  by_cases left : x = g <;> by_cases right : y = g
  · rw [left,update_self] at releasing
    rw [right,update_self] at marks
    rw [(Phase.marks_held marks).2] at releasing
    cases releasing
  · rw [left,update_self] at releasing
    rw [update_of_ne right] at marks
    exact mine y p releasing marks
  · rw [update_of_ne left] at releasing
    rw [right,update_self] at marks
    exact others x p releasing marks
  · rw [update_of_ne left] at releasing
    rw [update_of_ne right] at marks
    exact apart x y p releasing marks

lemma Inv.moves {next : State I G} (inv : Inv s) (moves : Moves s g next.locks)
    (takes : ∀ p ∈ (s.locks.phase g).takes,s.locks.owner (.lease p) = none →
      ∀ h ∈ s.locks.owner .bucket,(s.locks.phase h).marks ≠ some p)
    (turning : ∀ p ∈ turns s.store (s.locks.phase g),∀ h ∈ s.locks.owner (.lease p),(s.locks.phase h).releasing ≠ some p) :
    Inv next := by
  obtain ⟨store,locks⟩ := next
  dsimp only at moves
  cases moves with
  | stay => exact ⟨inv.consistent,inv.apart⟩
  | goto phase same release mark =>
    refine ⟨inv.consistent.goto same,apart_update inv.apart ?_ ?_⟩
    · exact fun y p releasing => inv.apart g y p (release p releasing)
    · intro x p releasing marks
      have owned := (inv.consistent x _).mpr (Phase.releasing_held releasing)
      exact turning p (mark p marks) x owned releasing
  | lock m phase free more release mark =>
    refine ⟨inv.consistent.lock free more,?_⟩
    simp only [Locks.lock,if_pos free]
    apply apart_update inv.apart
    · intro y p releasing marks
      obtain ⟨taken,rfl⟩ := release p releasing
      exact takes p taken free y ((inv.consistent y _).mpr (Phase.marks_held marks).1) marks
    · rw [mark]
      exact fun _ _ _ some => by cases some
  | unlock m phase less gone release mark =>
    refine ⟨inv.consistent.unlock less gone,apart_update inv.apart ?_ ?_⟩
    · rw [release]
      exact fun _ _ some => by cases some
    · rw [mark]
      exact fun _ _ _ some => by cases some

end moves

variable [DecidableEq I]

def inBucket (s : Store I) (now : Time) : BucketJob I → Store I × Phase I
  | .tryAcquire n => ({ s with bucket := (s.bucket.take now n).2 },.outBucket .done)
  | .acquire wanted =>
    match s.bucket.take now wanted.n with
    | (true,b) => ({ s with bucket := b },.outBucket (.register (wanted.lease now)))
    | (false,b) => ({ s with bucket := b },.outBucket (.sleep wanted))
  | .register lease => (s.register lease,.outBucket .done)
  | .reap order => (s,.reaping ⟨now,order.arrange s.bucket.leases,0,0⟩)

def giveBack (s : Store I) (p : Nat) (now : Time) : Store I :=
  match s.objects[p]? with
  | none => s
  | some l => { s with bucket := s.bucket.returnTokens now l.tokens l.id, credited := p :: s.credited }

def drop (s : Store I) (sweep : Sweep I) (entry : I × Nat) : Store I × Phase I :=
  match s.objects[entry.2]? with
  | none => (s,.reaping sweep)
  | some l =>
    ({ s with bucket := s.bucket.delete entry.1, credited := entry.2 :: s.credited },
      .reaping { sweep with
        expiredCount := sweep.expiredCount + 1
        reclaimedTokens := sweep.reclaimedTokens + l.tokens })

variable [DecidableEq G]

def advance (s : State I G) (g : G) (now later : Time) (cancelled : Bool) : State I G :=
  match s.locks.phase g with
  | .idle => s
  | .sleeping wanted => { s with locks := s.locks.goto g (if cancelled then .idle else .wantBucket (.acquire wanted)) }
  | .wantBucket job => { s with locks := s.locks.lock g .bucket (.inBucket job) }
  | .inBucket job => ⟨(inBucket s.store now job).1,s.locks.goto g (inBucket s.store now job).2⟩
  | .outBucket after => { s with locks := s.locks.unlock g .bucket after.phase }
  | .wantLease p job => { s with locks := s.locks.lock g (.lease p) (.inLease p job) }
  | .inLease p job => ⟨(inLease s.store p now later job).1,s.locks.goto g (inLease s.store p now later job).2⟩
  | .outLease p => { s with locks := s.locks.unlock g (.lease p) .idle }
  | .wantReturn p => { s with locks := s.locks.lock g .bucket (.inReturn p) }
  | .inReturn p => ⟨giveBack s.store p now,s.locks.goto g (.outReturn p)⟩
  | .outReturn p => { s with locks := s.locks.unlock g .bucket (.outLease p) }
  | .reaping sweep => ⟨(reap s.store sweep).1,s.locks.goto g (reap s.store sweep).2⟩
  | .wantMark sweep entry => { s with locks := s.locks.lock g (.lease entry.2) (.inMark sweep entry) }
  | .inMark sweep entry => ⟨mark s.store entry.2,s.locks.goto g (.outMark sweep entry)⟩
  | .outMark sweep entry =>
    ⟨(drop s.store sweep entry).1,s.locks.unlock g (.lease entry.2) (drop s.store sweep entry).2⟩

def step (s : State I G) : Choice I G → State I G
  | .call g operation =>
    match s.locks.phase g with
    | .idle => { s with locks := s.locks.goto g (begin s.store.bucket operation) }
    | _ => s
  | .advance g now later cancelled => advance s g now later cancelled

lemma inBucket_phase (s : Store I) (now : Time) (job : BucketJob I) :
    (inBucket s now job).2.held = [.bucket] ∧ (inBucket s now job).2.releasing = none ∧ (inBucket s now job).2.marks = none := by
  cases job with
  | tryAcquire n => exact ⟨rfl,rfl,rfl⟩
  | acquire wanted =>
    unfold inBucket
    dsimp only
    obtain ⟨success,b⟩ := s.bucket.take now wanted.n
    cases success <;> exact ⟨rfl,rfl,rfl⟩
  | register lease | reap order => exact ⟨rfl,rfl,rfl⟩

lemma drop_phase (s : Store I) (sweep : Sweep I) (entry : I × Nat) :
    (drop s sweep entry).2.held = [.bucket] ∧ (drop s sweep entry).2.releasing = none ∧ (drop s sweep entry).2.marks = none := by
  rw [drop]
  cases s.objects[entry.2]? <;> exact ⟨rfl,rfl,rfl⟩

lemma advance_moves (s : State I G) (g : G) (now later : Time) (cancelled : Bool) :
    Moves s g (advance s g now later cancelled).locks := by
  unfold advance
  cases phase : s.locks.phase g with
  | idle => exact .stay
  | sleeping wanted =>
    cases cancelled with
    | true => exact .plain .idle (by rw [phase]; rfl) rfl rfl
    | false => exact .plain (.wantBucket (.acquire wanted)) (by rw [phase]; rfl) rfl rfl
  | wantBucket job => exact .tryLock .bucket (.inBucket job) (by rw [phase]; rfl) (fun _ some => by cases some) rfl
  | inBucket job =>
    obtain ⟨held,releasing,marks⟩ := inBucket_phase s.store now job
    exact .plain _ (by rw [phase,held]; rfl) releasing marks
  | outBucket after =>
    cases after <;> exact .unlock .bucket _ (by rw [phase]; rfl) (by simp [After.phase,Phase.held]) rfl rfl
  | wantLease p job =>
    refine .tryLock (.lease p) (.inLease p job) (by rw [phase]; rfl) ?_ rfl
    intro q releasing
    cases job with
    | renew ttl => cases releasing
    | release =>
      cases releasing
      exact ⟨by rw [phase]; rfl,rfl⟩
  | inLease p job =>
    obtain ⟨held,marks,releasing⟩ := inLease_phase s.store p now later job
    refine .goto _ (by rw [phase,held]; rfl) ?_ (fun _ some => by rw [marks] at some; cases some)
    intro q still
    obtain ⟨rfl,rfl⟩ := releasing q still
    rw [phase]
    rfl
  | outLease p => exact .unlock (.lease p) .idle (by rw [phase]; rfl) (by simp [Phase.held]) rfl rfl
  | wantReturn p => exact .tryLock .bucket (.inReturn p) (by rw [phase]; rfl) (fun _ some => by cases some) rfl
  | inReturn p => exact .plain (.outReturn p) (by rw [phase]; rfl) rfl rfl
  | outReturn p => exact .unlock .bucket (.outLease p) (by rw [phase]; rfl) (by simp [Phase.held]) rfl rfl
  | reaping sweep =>
    obtain ⟨held,releasing,marks⟩ := reap_phase s.store sweep
    refine .goto _ (by rw [phase,held]; rfl) (fun _ some => by rw [releasing] at some; cases some) ?_
    intro p some
    rw [phase]
    exact marks p some
  | wantMark sweep entry => exact .tryLock (.lease entry.2) (.inMark sweep entry) (by rw [phase]; rfl) (fun _ some => by cases some) rfl
  | inMark sweep entry => exact .plain (.outMark sweep entry) (by rw [phase]; rfl) rfl rfl
  | outMark sweep entry =>
    obtain ⟨held,releasing,marks⟩ := drop_phase s.store sweep entry
    exact .unlock (.lease entry.2) _ (by rw [phase,held]; rfl) (by simp [held]) releasing marks

lemma call_moves (s : State I G) (g : G) (operation : Operation I) : Moves s g (step s (.call g operation)).locks := by
  rw [step]
  cases phase : s.locks.phase g with
  | idle =>
    have first : (begin s.store.bucket operation).held = [] ∧ (begin s.store.bucket operation).releasing = none ∧
        (begin s.store.bucket operation).marks = none := by
      cases operation with
      | tryAcquire n | lease wanted now => rw [begin]; split_ifs <;> exact ⟨rfl,rfl,rfl⟩
      | release p | renew p ttl | reapExpiredLeases order => exact ⟨rfl,rfl,rfl⟩
    exact .plain _ (by rw [phase,first.1]; rfl) first.2.1 first.2.2
  | _ => exact .stay

lemma Inv.step {s : State I G} (choice : Choice I G) (inv : Inv s) (clean : Clean s choice) : Inv (step s choice) := by
  cases choice with
  | advance g now later cancelled => exact inv.moves (advance_moves s g now later cancelled) clean.1 clean.2
  | call g operation =>
    by_cases idle : s.locks.phase g = .idle
    · apply inv.moves (call_moves s g operation)
      all_goals
        rw [idle]
        exact fun p none => by cases none
    · have same : Threads.step s (.call g operation) = s := by
        rw [Threads.step]
        split
        · exact absurd ‹_› idle
        · rfl
      rw [same]
      exact inv

/-- As long as releases and the reaper keep clear of each other's leases, no two goroutines
wait for each other's mutexes in any state of any run. -/
theorem uncrossed_of_clean (cfg : Config) (now : Time) (choices : List (Choice I G))
    (clean : Along step Clean (State.new cfg now) choices) : Throughout step Sound (State.new cfg now) choices := by
  have start : Inv (State.new cfg now : State I G) :=
    ⟨fun g m => ⟨fun owned => (by cases owned),fun held => (by cases held)⟩,fun _ _ _ releasing => (by cases releasing)⟩
  have kept :=
    Along.throughout (fun _ choice inv clean => inv.step choice clean) start clean
  exact kept.mono (fun _ inv => inv.sound)

end system

def leased (g : Bool) : List (Choice Nat Bool) :=
  [.call g (.lease ⟨7,"t",0,5⟩ 0),.advance g 0 0 false,.advance g 0 0 false,.advance g 0 0 false]

theorem uncrossed_release_then_reap :
    Throughout step Sound (State.new ⟨2,1⟩ 0 : State Nat Bool)
      (leased true ++ [Choice.call true (.release 0),.call false (.reapExpiredLeases ⟨id,fun _ => .refl _⟩),.advance true 9 9 false,
        .advance true 9 9 false,.advance true 9 9 false,.advance false 9 9 false,.advance true 9 9 false,.advance true 9 9 false,
        .advance false 9 9 false,.advance false 9 9 false,.advance true 9 9 false]) :=
  uncrossed_of_clean ⟨2,1⟩ 0 _ (by decide +kernel)

/-- A release of an expired lease and the reaper wait for each other. -/
theorem release_and_reaper_crossed :
    ¬Throughout step Sound (State.new ⟨2,1⟩ 0 : State Nat Bool)
      (leased true ++ [Choice.call true (.release 0),.call false (.reapExpiredLeases ⟨id,fun _ => .refl _⟩),.advance true 9 9 false,
        .advance false 9 9 false,.advance false 9 9 false,.advance false 9 9 false,.advance true 9 9 false]) := by
  intro throughout
  apply throughout _ List.prefix_rfl true false (by decide)
  exact ⟨.lease 0,.bucket,by decide +kernel,by decide +kernel,by decide +kernel,by decide +kernel⟩

end Tempest.TokenBucket.Threads
