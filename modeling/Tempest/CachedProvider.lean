import Tempest.Types
import Tempest.Lib.Interaction

/-! The caching provider of the vault. A reader that misses fetches the secret from the
backend and fills the cache in a later step; a writer writes to the backend and drops the
cache entry in a later step. Calls in flight are steps apart from one another. -/
open List
namespace Tempest.CachedProvider
open Interaction Function

/-- The encryption of cache entries. A nonce is drawn for each. -/
structure Cipher (N P C : Type) where
  encrypt : N → P → C
  decrypt : C → Option P
  decrypt_encrypt : ∀ nonce plain, decrypt (encrypt nonce plain) = some plain

structure Secret (P M : Type) where
  value : P
  metadata : M
  deriving DecidableEq

structure CachedEntry (C M : Type) where
  encrypted : C
  metadata : M
  expiresAt : Time

inductive Result (P M : Type) where
  | secret (secret : Secret P M)
  | notFound
  | failed
  deriving DecidableEq

def answer {P M : Type} : Option (Secret P M) → Result P M
  | some secret => .secret secret
  | none => .notFound

/-- A call between two of its steps. A reader remembers what the backend had when it
started, and whether it was `quiet`: no write of its key was in progress then and none has
come since. -/
inductive Flight (K P M : Type) where
  | missed (key : K) (now : Time) (expected : Option (Secret P M)) (quiet : Bool)
  | fetched (key : K) (now : Time) (secret : Secret P M) (expected : Option (Secret P M)) (quiet : Bool)
  | wrote (key : K)
  deriving DecidableEq

structure Returned (K P M : Type) where
  key : K
  expected : Option (Secret P M)
  quiet : Bool
  result : Result P M
  deriving DecidableEq

structure State (K P M C : Type) where
  backend : K → Option (Secret P M)
  cache : K → Option (CachedEntry C M)
  flight : List (Flight K P M)
  returned : List (Returned K P M)

/-- The first step of a call, or the next step of the call at a place. A backend call may
fail, and then it has no effect; no nonce means that drawing it failed. -/
inductive Choice (K P M N : Type) where
  | getSecret (key : K) (now : Time)
  | fetch (i : Nat) (fails : Bool)
  | fill (i : Nat) (nonce : Option N) (ttl : Int)
  | putSecret (key : K) (value : P) (metadata : M) (fails : Bool)
  | deleteSecret (key : K) (fails : Bool)
  | finish (i : Nat)
  | invalidate (key : K)
  | invalidateAll

section system

variable {K P M C N : Type}

/-- A read that no write of its key came near returns what the backend had, unless a backend
call or the drawing of a nonce failed. -/
def Fresh (s : State K P M C) : Prop :=
  ∀ read ∈ s.returned, read.quiet = true → read.result = .failed ∨ read.result = answer read.expected

variable (key : K)

section invariant

variable (cipher : Cipher N P C)

/-- What can be read from the cache is what the backend has, or a writer is about to drop it. -/
structure Inv (s : State K P M C) : Prop where
  cached : ∀ key entry plain, s.cache key = some entry → cipher.decrypt entry.encrypted = some plain →
    s.backend key = some ⟨plain,entry.metadata⟩ ∨ Flight.wrote key ∈ s.flight
  missed : ∀ key now expected, Flight.missed key now expected true ∈ s.flight → expected = s.backend key
  fetched : ∀ key now secret expected, Flight.fetched key now secret expected true ∈ s.flight → expected = some secret
  fresh : Fresh s

variable {cipher} {s : State K P M C}

variable {other : Flight K P M} {i : Nat}

lemma mem_eraseIdx_of_ne {call : Flight K P M} (listed : call ∈ s.flight) (there : s.flight[i]? = some other)
    (apart : call ≠ other) : call ∈ s.flight.eraseIdx i := by
  rw [mem_eraseIdx_iff_getElem?]
  obtain ⟨j,found⟩ := mem_iff_getElem?.mp listed
  refine ⟨j,?_,found⟩
  rintro rfl
  exact apart (Option.some.inj (found.symm.trans there))

lemma mem_set_of_ne {call next : Flight K P M} (listed : call ∈ s.flight) (there : s.flight[i]? = some other)
    (apart : call ≠ other) : call ∈ s.flight.set i next := by
  obtain ⟨j,found⟩ := mem_iff_getElem?.mp listed
  have different : i ≠ j := by
    rintro rfl
    exact apart (Option.some.inj (found.symm.trans there))
  exact mem_iff_getElem?.mpr ⟨j,by rw [getElem?_set_ne different,found]⟩

lemma fresh_cons {expected : Option (Secret P M)} {quiet : Bool} {result : Result P M} {rest : List (Returned K P M)}
    (fresh : ∀ read ∈ rest,read.quiet = true → read.result = .failed ∨ read.result = answer read.expected)
    (last : quiet = true → result = .failed ∨ result = answer expected) :
    ∀ read ∈ (⟨key,expected,quiet,result⟩ : Returned K P M) :: rest,
      read.quiet = true → read.result = .failed ∨ read.result = answer read.expected := by
  intro read listed
  rcases mem_cons.mp listed with rfl | before
  · exact last
  · exact fresh read before

lemma Inv.leave {reads : List (Returned K P M)} (inv : Inv cipher s)
    (there : s.flight[i]? = some other) (dropped : ∀ key,Flight.wrote key = other → s.cache key = none)
    (fresh : ∀ read ∈ reads,read.quiet = true → read.result = .failed ∨ read.result = answer read.expected) :
    Inv cipher { s with flight := s.flight.eraseIdx i,returned := reads } := by
  refine ⟨?_,?_,?_,fresh⟩
  · intro key entry plain cached opened
    refine (inv.cached key entry plain cached opened).imp_right (fun writing => mem_eraseIdx_of_ne writing there ?_)
    intro same
    rw [dropped key same] at cached
    cases cached
  · exact fun key now expected listed => inv.missed key now expected (mem_of_mem_eraseIdx listed)
  · exact fun key now secret expected listed => inv.fetched key now secret expected (mem_of_mem_eraseIdx listed)

end invariant

variable [DecidableEq K]

def Flight.disturb (key : K) : Flight K P M → Flight K P M
  | .missed k now expected quiet => .missed k now expected (quiet && k ≠ key)
  | .fetched k now secret expected quiet => .fetched k now secret expected (quiet && k ≠ key)
  | .wrote k => .wrote k

namespace State

def new (backend : K → Option (Secret P M)) : State K P M C := ⟨backend,fun _ => none,[],[]⟩

def writing (s : State K P M C) (key : K) : Bool :=
  s.flight.any (fun call => match call with
    | .wrote k => k = key
    | _ => false)

def fetch (s : State K P M C) (i : Nat) (fails : Bool) : State K P M C :=
  match s.flight[i]? with
  | some (.missed key now expected quiet) =>
    if fails then { s with flight := s.flight.eraseIdx i, returned := ⟨key,expected,quiet,.failed⟩ :: s.returned }
    else
      match s.backend key with
      | none => { s with flight := s.flight.eraseIdx i, returned := ⟨key,expected,quiet,.notFound⟩ :: s.returned }
      | some secret => { s with flight := s.flight.set i (.fetched key now secret expected quiet) }
  | _ => s

def write (s : State K P M C) (key : K) (stored : Option (Secret P M)) (fails : Bool) : State K P M C :=
  if fails then s
  else { s with
    backend := Function.update s.backend key stored
    flight := s.flight.map (Flight.disturb key) ++ [.wrote key] }

def invalidate (s : State K P M C) (key : K) : State K P M C := { s with cache := Function.update s.cache key none }

def finish (s : State K P M C) (i : Nat) : State K P M C :=
  match s.flight[i]? with
  | some (.wrote key) => { s.invalidate key with flight := s.flight.eraseIdx i }
  | _ => s

variable (cipher : Cipher N P C)

def hit (s : State K P M C) (key : K) (now : Time) : Option (Secret P M) :=
  match s.cache key with
  | none => none
  | some entry => if now < entry.expiresAt then (cipher.decrypt entry.encrypted).map (⟨·,entry.metadata⟩) else none

def getSecret (s : State K P M C) (key : K) (now : Time) : State K P M C :=
  match s.hit cipher key now with
  | some secret => { s with returned := ⟨key,s.backend key,!s.writing key,.secret secret⟩ :: s.returned }
  | none => { s with flight := s.flight ++ [.missed key now (s.backend key) (!s.writing key)] }

def fill (s : State K P M C) (i : Nat) (nonce : Option N) (ttl : Int) : State K P M C :=
  match s.flight[i]? with
  | some (.fetched key now secret expected quiet) =>
    match nonce with
    | none => { s with flight := s.flight.eraseIdx i, returned := ⟨key,expected,quiet,.failed⟩ :: s.returned }
    | some nonce =>
      { s with
        cache := Function.update s.cache key (some ⟨cipher.encrypt nonce secret.value,secret.metadata,now + ttl⟩)
        flight := s.flight.eraseIdx i
        returned := ⟨key,expected,quiet,.secret secret⟩ :: s.returned }
  | _ => s

end State

variable (cipher : Cipher N P C)

def step (s : State K P M C) : Choice K P M N → State K P M C
  | .getSecret key now => s.getSecret cipher key now
  | .fetch i fails => s.fetch i fails
  | .fill i nonce ttl => s.fill cipher i nonce ttl
  | .putSecret key value metadata fails => s.write key (some ⟨value,metadata⟩) fails
  | .deleteSecret key fails => s.write key none fails
  | .finish i => s.finish i
  | .invalidate key => s.invalidate key
  | .invalidateAll => { s with cache := fun _ => none }

def Clean (s : State K P M C) : Choice K P M N → Prop
  | .fill i _ _ =>
    match s.flight[i]? with
    | some (.fetched key _ secret _ _) => s.backend key = some secret
    | _ => True
  | _ => True

variable {cipher} {s : State K P M C}

lemma writing_iff : s.writing key = true ↔ Flight.wrote key ∈ s.flight := by
  rw [State.writing,any_eq_true]
  constructor
  · rintro ⟨call,listed,same⟩
    cases call with
    | wrote k => exact (of_decide_eq_true same) ▸ listed
    | missed | fetched => cases same
  · intro listed
    exact ⟨.wrote key,listed,by simp⟩

lemma Inv.getSecret (inv : Inv cipher s) (key : K) (now : Time) : Inv cipher (s.getSecret cipher key now) := by
  unfold State.getSecret
  cases looked : s.hit cipher key now with
  | some secret =>
    refine ⟨inv.cached,inv.missed,inv.fetched,fresh_cons key inv.fresh ?_⟩
    intro quiet
    right
    unfold State.hit at looked
    cases cached : s.cache key with
    | none => simp [cached] at looked
    | some entry =>
      simp only [cached] at looked
      split_ifs at looked
      obtain ⟨plain,opened,rfl⟩ := Option.map_eq_some_iff.mp looked
      rcases inv.cached key entry plain cached opened with same | writing
      · rw [same,answer]
      · rw [← writing_iff] at writing
        simp [writing] at quiet
  | none =>
    refine ⟨?_,?_,?_,inv.fresh⟩
    · intro k entry plain cached opened
      exact (inv.cached k entry plain cached opened).imp_right (mem_append_left _)
    · intro k now' expected listed
      rcases mem_append.mp listed with before | last
      · exact inv.missed k now' expected before
      · simp only [mem_singleton,Flight.missed.injEq] at last
        obtain ⟨rfl,-,rfl,-⟩ := last
        rfl
    · intro k now' secret expected listed
      rcases mem_append.mp listed with before | last
      · exact inv.fetched k now' secret expected before
      · cases mem_singleton.mp last

omit [DecidableEq K] in
lemma Inv.fetch (inv : Inv cipher s) (i : Nat) (fails : Bool) : Inv cipher (s.fetch i fails) := by
  unfold State.fetch
  split
  · rename_i key now expected quiet there
    have listed := mem_of_getElem? there
    split_ifs
    · exact inv.leave there (fun _ same => by cases same) (fresh_cons key inv.fresh (fun _ => .inl rfl))
    · split
      · rename_i none
        refine inv.leave there (fun _ same => by cases same) (fresh_cons key inv.fresh ?_)
        rintro rfl
        rw [inv.missed key now expected listed,none]
        exact .inr rfl
      · rename_i secret found
        refine ⟨?_,?_,?_,inv.fresh⟩
        · intro k entry plain cached opened
          exact (inv.cached k entry plain cached opened).imp_right
            (fun writing => mem_set_of_ne writing there (fun same => by cases same))
        · intro k now' expected' member
          rcases mem_or_eq_of_mem_set member with before | same
          · exact inv.missed k now' expected' before
          · cases same
        · intro k now' secret' expected' member
          rcases mem_or_eq_of_mem_set member with before | same
          · exact inv.fetched k now' secret' expected' before
          · cases same
            rw [inv.missed key now expected listed,found]
  · exact inv

lemma Inv.write (inv : Inv cipher s) (key : K) (stored : Option (Secret P M)) (fails : Bool) :
    Inv cipher (s.write key stored fails) := by
  unfold State.write
  split_ifs
  · exact inv
  · refine ⟨?_,?_,?_,inv.fresh⟩
    · intro k entry plain cached opened
      by_cases same : k = key
      · exact .inr (by simp [same])
      · dsimp only
        rw [update_of_ne same]
        refine (inv.cached k entry plain cached opened).imp_right (fun writing => mem_append_left _ ?_)
        exact mem_map.mpr ⟨.wrote k,writing,rfl⟩
    · intro k now expected listed
      -- a reader that is still quiet reads another key
      rcases mem_append.mp listed with before | last
      · obtain ⟨call,there,same⟩ := mem_map.mp before
        cases call with
        | missed k' now' expected' quiet =>
          simp only [Flight.disturb,Flight.missed.injEq,Bool.and_eq_true,decide_eq_true_eq] at same
          obtain ⟨rfl,rfl,rfl,rfl,other⟩ := same
          dsimp only
          rw [update_of_ne other]
          exact inv.missed k' now' expected' there
        | fetched | wrote => cases same
      · cases mem_singleton.mp last
    · intro k now secret expected listed
      rcases mem_append.mp listed with before | last
      · obtain ⟨call,there,same⟩ := mem_map.mp before
        cases call with
        | fetched k' now' secret' expected' quiet =>
          simp only [Flight.disturb,Flight.fetched.injEq,Bool.and_eq_true,decide_eq_true_eq] at same
          obtain ⟨rfl,rfl,rfl,rfl,rfl,-⟩ := same
          exact inv.fetched k' now' secret' expected' there
        | missed | wrote => cases same
      · cases mem_singleton.mp last

lemma Inv.invalidate (inv : Inv cipher s) (key : K) : Inv cipher (s.invalidate key) := by
  refine ⟨?_,inv.missed,inv.fetched,inv.fresh⟩
  intro k entry plain cached opened
  by_cases same : k = key
  · simp [State.invalidate,same] at cached
  · simp only [State.invalidate,update_of_ne same] at cached
    exact inv.cached k entry plain cached opened

lemma Inv.finish (inv : Inv cipher s) (i : Nat) : Inv cipher (s.finish i) := by
  unfold State.finish
  split
  · rename_i key there
    refine (inv.invalidate key).leave there ?_ inv.fresh
    intro k same
    cases same
    exact update_self ..
  · exact inv

lemma Inv.fill (inv : Inv cipher s) (i : Nat) (nonce : Option N) (ttl : Int)
    (clean : Clean s (.fill i nonce ttl)) : Inv cipher (s.fill cipher i nonce ttl) := by
  unfold State.fill
  split
  · rename_i key now secret expected quiet there
    simp only [Clean,there] at clean
    have listed := mem_of_getElem? there
    cases nonce with
    | none => exact inv.leave there (fun _ same => by cases same) (fresh_cons key inv.fresh (fun _ => .inl rfl))
    | some nonce =>
      have told : quiet = true → Result.secret secret = .failed ∨ Result.secret secret = answer expected := by
        rintro rfl
        rw [inv.fetched key now secret expected listed]
        exact .inr rfl
      have left := inv.leave there (fun _ same => by cases same) (fresh_cons key inv.fresh told)
      refine ⟨?_,left.missed,left.fetched,left.fresh⟩
      intro k entry plain cached opened
      by_cases same : k = key
      · subst same
        simp only [update_self] at cached
        cases cached
        rw [cipher.decrypt_encrypt] at opened
        cases opened
        exact .inl clean
      · simp only [update_of_ne same] at cached
        exact left.cached k entry plain cached opened
  · exact inv

lemma Inv.step (choice : Choice K P M N) (inv : Inv cipher s) (clean : Clean s choice) : Inv cipher (step cipher s choice) := by
  cases choice with
  | getSecret key now => exact inv.getSecret key now
  | fetch i fails => exact inv.fetch i fails
  | fill i nonce ttl => exact inv.fill i nonce ttl clean
  | putSecret key value metadata fails => exact inv.write key _ fails
  | deleteSecret key fails => exact inv.write key none fails
  | finish i => exact inv.finish i
  | invalidate key => exact inv.invalidate key
  | invalidateAll => exact ⟨fun _ _ _ cached => (by cases cached),inv.missed,inv.fetched,inv.fresh⟩

/-- If readers fill the cache only with what the backend still has, no read that no write
came near returns anything else than what the backend had, in any state of any run. -/
theorem fresh_of_clean (cipher : Cipher N P C) (backend : K → Option (Secret P M)) (choices : List (Choice K P M N))
    (clean : Along (step cipher) Clean (State.new backend) choices) :
    Throughout (step cipher) Fresh (State.new backend) choices := by
  have start : Inv cipher (State.new backend) :=
    ⟨fun _ _ _ cached => (by cases cached),fun _ _ _ listed => (by cases listed),fun _ _ _ _ listed => (by cases listed),
      fun _ listed => (by cases listed)⟩
  have kept :=
    Along.throughout (fun _ choice inv clean => inv.step choice clean) start clean
  exact kept.mono (fun _ inv => inv.fresh)

end system

def plain : Cipher Unit Nat Nat := ⟨fun _ value => value,some,fun _ _ => rfl⟩

theorem fresh_after_put :
    Throughout (step plain) Fresh (State.new (fun _ : Unit => some ⟨1,()⟩))
      [.getSecret () 0,.fetch 0 false,.fill 0 (some ()) 60,.getSecret () 1,.putSecret () 2 () false,.finish 0,.getSecret () 2,
        .fetch 0 false,.fill 0 (some ()) 60,.getSecret () 3] :=
  fresh_of_clean plain _ _ ⟨trivial,trivial,rfl,trivial,trivial,trivial,trivial,trivial,rfl,trivial,trivial⟩

/-- A reader fills in the old secret after the writer has dropped the entry and returned, and
a read that starts then returns it. -/
theorem stale_after_put :
    ¬Throughout (step plain) Fresh (State.new (fun _ : Unit => some ⟨1,()⟩))
      [.getSecret () 0,.fetch 0 false,.putSecret () 2 () false,.finish 1,.fill 0 (some ()) 60,.getSecret () 1] := by
  intro throughout
  have fresh := throughout _ prefix_rfl ⟨(),some ⟨2,()⟩,true,.secret ⟨1,()⟩⟩ (by decide) rfl
  revert fresh
  decide

end Tempest.CachedProvider
