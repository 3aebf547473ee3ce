import Mathlib.Tactic.Linarith
import Mathlib.Tactic.Positivity
import Tempest.Types
import Tempest.Lib.Interaction

/-! The token bucket, over exact rationals. Leases are objects that callers keep; the bucket
has a map from their ids to them. Tokens come back by a release or by the reaper. -/
open List
namespace Tempest.TokenBucket
open Interaction

structure Config where
  capacity : ℚ
  refillRate : ℚ
  deriving DecidableEq

def Config.withDefaults (cfg : Config) : Config :=
  ⟨if cfg.capacity ≤ 0 then 1 else cfg.capacity,if cfg.refillRate ≤ 0 then 1 else cfg.refillRate⟩

structure Lease (I : Type) where
  id : I
  tenant : String
  tokens : ℚ
  expiresAt : Time
  released : Bool
  deriving DecidableEq

/-- `leases` maps ids to the places of the lease objects. -/
structure Bucket (I : Type) where
  cfg : Config
  tokens : ℚ
  lastRefill : Time
  leases : List (I × Nat)
  deriving DecidableEq

inductive Error where
  | rateLimitExceeded (requested capacity : ℚ)
  | cancelled
  | leaseNotFound
  | leaseExpired
  deriving DecidableEq

def Error.text (number : ℚ → String) (cause : String) : Error → String
  | rateLimitExceeded requested capacity =>
    "tokenbucket: rate limit exceeded: requested tokens " ++ number requested ++ " exceeds capacity " ++ number capacity
  | cancelled => cause
  | leaseNotFound => "tokenbucket: lease not found"
  | leaseExpired => "tokenbucket: lease expired"

namespace Bucket

variable {I : Type}

def new (cfg : Config) (now : Time) : Bucket I := ⟨cfg.withDefaults,cfg.withDefaults.capacity,now,[]⟩

def refillLocked (b : Bucket I) (now : Time) : Bucket I :=
  let elapsed : ℚ := (now - b.lastRefill : Int) / 1000000000
  if elapsed ≤ 0 then b
  else { b with tokens := min b.cfg.capacity (b.tokens + elapsed * b.cfg.refillRate), lastRefill := now }

def take (b : Bucket I) (now : Time) (n : ℚ) : Bool × Bucket I :=
  let b := b.refillLocked now
  if n ≤ b.tokens then (true,{ b with tokens := b.tokens - n }) else (false,b)

def tryAcquire (b : Bucket I) (now : Time) (n : ℚ) : Bool × Bucket I :=
  if n ≤ 0 then (true,b) else b.take now n

def rounds (n : ℚ) : Bucket I → List Time → Except Error Unit × Bucket I
  | b,[] => (.error .cancelled,b)
  | b,now :: later =>
    match b.take now n with
    | (true,b) => (.ok (),b)
    | (false,b) => rounds n b later

def acquire (b : Bucket I) (n : ℚ) (times : List Time) : Except Error Unit × Bucket I :=
  if n ≤ 0 then (.ok (),b)
  else if b.cfg.capacity < n then (.error (.rateLimitExceeded n b.cfg.capacity),b)
  else rounds n b times

def add (b : Bucket I) (n : ℚ) : Bucket I := { b with tokens := min b.cfg.capacity (b.tokens + n) }

variable [DecidableEq I]

def delete (b : Bucket I) (id : I) : Bucket I := { b with leases := b.leases.filter (fun entry => entry.1 ≠ id) }

def returnTokens (b : Bucket I) (now : Time) (n : ℚ) (leaseID : I) : Bucket I :=
  ((b.delete leaseID).refillLocked now).add n

end Bucket

/-- The bucket, the lease objects and, in order, the leases whose tokens were given back. -/
structure Store (I : Type) where
  bucket : Bucket I
  objects : List (Lease I)
  credited : List Nat
  deriving DecidableEq

/-- The order in which the map is ranged over. -/
structure RangeOrder (I : Type) where
  arrange : List (I × Nat) → List (I × Nat)
  perm : ∀ leases, (arrange leases).Perm leases

namespace Store

variable {I : Type}

def new (cfg : Config) (now : Time) : Store I := ⟨.new cfg now,[],[]⟩

def renew (s : Store I) (p : Nat) (now later : Time) (ttl : Int) : Except Error Unit × Store I :=
  match s.objects[p]? with
  | none => (.error .leaseNotFound,s)
  | some l =>
    if l.released then (.error .leaseNotFound,s)
    else if l.expiresAt < now then (.error .leaseExpired,s)
    else (.ok (),{ s with objects := s.objects.set p { l with expiresAt := later + ttl } })

/-- The end of the reaper's section, with the number of leases that it found expired and the
sum of their tokens. -/
def reclaim (s : Store I) (now : Time) (expiredCount : Nat) (reclaimedTokens : ℚ) : Store I :=
  if 0 < expiredCount then { s with bucket := (s.bucket.refillLocked now).add reclaimedTokens } else s

variable [DecidableEq I]

def register (s : Store I) (lease : Lease I) : Store I :=
  { s with
    bucket := { s.bucket.delete lease.id with leases := (s.bucket.delete lease.id).leases ++ [(lease.id,s.objects.length)] }
    objects := s.objects ++ [lease] }

def lease (s : Store I) (id : I) (tenant : String) (n : ℚ) (ttl : Int) (times : List Time) (now : Time) :
    Except Error Nat × Store I :=
  match s.bucket.acquire n times with
  | (.error err,b) => (.error err,{ s with bucket := b })
  | (.ok (),b) => (.ok s.objects.length,{ s with bucket := b }.register ⟨id,tenant,n,now + ttl,false⟩)

def release (s : Store I) (p : Nat) (now : Time) : Store I :=
  match s.objects[p]? with
  | none => s
  | some l =>
    if l.released then s
    else
      { bucket := s.bucket.returnTokens now l.tokens l.id
        objects := s.objects.set p { l with released := true }
        credited := p :: s.credited }

def visit (now : Time) (found : Store I × Nat × ℚ) (entry : I × Nat) : Store I × Nat × ℚ :=
  let (s,expiredCount,reclaimedTokens) := found
  match s.objects[entry.2]? with
  | none => found
  | some l =>
    if l.expiresAt < now then
      ({ bucket := s.bucket.delete entry.1
         objects := s.objects.set entry.2 { l with released := true }
         credited := entry.2 :: s.credited },expiredCount + 1,reclaimedTokens + l.tokens)
    else found

def reapExpiredLeases (s : Store I) (order : RangeOrder I) (now : Time) : Nat × Store I :=
  let (s,expiredCount,reclaimedTokens) := (order.arrange s.bucket.leases).foldl (visit now) (s,0,0)
  (expiredCount,s.reclaim now expiredCount reclaimedTokens)

end Store

inductive Call (I : Type) where
  | available (now : Time)
  | tryAcquire (n : ℚ) (now : Time)
  | acquire (n : ℚ) (times : List Time)
  | lease (id : I) (tenant : String) (n : ℚ) (ttl : Int) (times : List Time) (now : Time)
  | release (p : Nat) (now : Time)
  | renew (p : Nat) (now later : Time) (ttl : Int)
  | reapExpiredLeases (order : RangeOrder I) (now : Time)

section system

variable {I : Type}

structure Sound (s : Store I) : Prop where
  low : 0 ≤ s.bucket.tokens
  high : s.bucket.tokens ≤ s.bucket.cfg.capacity
  once : s.credited.Nodup

def Clean (_ : Store I) : Call I → Prop
  | .lease _ _ n _ _ _ => 0 ≤ n
  | _ => True

variable [DecidableEq I]

def step (s : Store I) : Call I → Store I
  | .available now => { s with bucket := s.bucket.refillLocked now }
  | .tryAcquire n now => { s with bucket := (s.bucket.tryAcquire now n).2 }
  | .acquire n times => { s with bucket := (s.bucket.acquire n times).2 }
  | .lease id tenant n ttl times now => (s.lease id tenant n ttl times now).2
  | .release p now => s.release p now
  | .renew p now later ttl => (s.renew p now later ttl).2
  | .reapExpiredLeases order now => (s.reapExpiredLeases order now).2

end system

variable (now : Time)

section bounds

variable {I : Type} {b : Bucket I} {n : ℚ}

structure Bucket.Bounded (b : Bucket I) : Prop where
  rate : 0 ≤ b.cfg.refillRate
  low : 0 ≤ b.tokens
  high : b.tokens ≤ b.cfg.capacity

namespace Bucket

section
variable (bounded : Bounded b)
include bounded

lemma Bounded.refillLocked : Bounded (b.refillLocked now) ∧ (b.refillLocked now).leases = b.leases := by
  obtain ⟨rate,low,high⟩ := bounded
  unfold Bucket.refillLocked
  dsimp only
  split_ifs with past
  · exact ⟨⟨rate,low,high⟩,rfl⟩
  · have gained := mul_nonneg (le_of_lt (not_le.mp past)) rate
    exact ⟨⟨rate,le_min (le_trans low high) (add_nonneg low gained),min_le_left _ _⟩,rfl⟩

lemma Bounded.take (positive : 0 < n) : Bounded (b.take now n).2 ∧ (b.take now n).2.leases = b.leases := by
  obtain ⟨⟨rate,low,high⟩,same⟩ := bounded.refillLocked now
  unfold Bucket.take
  dsimp only
  split_ifs with enough
  · exact ⟨⟨rate,sub_nonneg.mpr enough,le_trans (sub_le_self _ (le_of_lt positive)) high⟩,same⟩
  · exact ⟨⟨rate,low,high⟩,same⟩

lemma Bounded.tryAcquire (n : ℚ) :
    Bounded (b.tryAcquire now n).2 ∧ (b.tryAcquire now n).2.leases = b.leases := by
  unfold Bucket.tryAcquire
  split_ifs with none
  · exact ⟨bounded,rfl⟩
  · exact bounded.take now (not_le.mp none)

lemma Bounded.rounds (positive : 0 < n) (times : List Time) :
    Bounded (rounds n b times).2 ∧ (rounds n b times).2.leases = b.leases := by
  induction times generalizing b with
  | nil => exact ⟨bounded,rfl⟩
  | cons now later ih =>
    obtain ⟨taken,same⟩ := bounded.take now positive
    unfold Bucket.rounds
    generalize b.take now n = result at taken same
    obtain ⟨success,next⟩ := result
    cases success with
    | true => exact ⟨taken,same⟩
    | false =>
      obtain ⟨after,still⟩ := ih taken
      exact ⟨after,still.trans same⟩

lemma Bounded.acquire (n : ℚ) (times : List Time) :
    Bounded (b.acquire n times).2 ∧ (b.acquire n times).2.leases = b.leases := by
  unfold Bucket.acquire
  split_ifs with none
  · exact ⟨bounded,rfl⟩
  · exact ⟨bounded,rfl⟩
  · exact bounded.rounds (not_le.mp none) times

lemma Bounded.add (amount : 0 ≤ n) : Bounded (b.add n) :=
  ⟨bounded.rate,le_min (le_trans bounded.low bounded.high) (add_nonneg bounded.low amount),min_le_left _ _⟩

end

lemma new_bounded (cfg : Config) (now : Time) : Bounded (Bucket.new cfg now : Bucket I) := by
  have positive : 0 ≤ cfg.withDefaults.capacity := by
    unfold Config.withDefaults
    split_ifs <;> linarith
  refine ⟨?_,positive,le_refl _⟩
  unfold Bucket.new Config.withDefaults
  split_ifs <;> linarith

lemma Bounded.delete [DecidableEq I] (bounded : Bounded b) (id : I) : Bounded (b.delete id) :=
  ⟨bounded.rate,bounded.low,bounded.high⟩

end Bucket

end bounds

/-- Besides the bounds: what was given back is marked as released, what the map has is not,
and the map has each lease under its own id. -/
structure Inv {I : Type} (s : Store I) : Prop where
  bounded : s.bucket.Bounded
  amounts : ∀ l ∈ s.objects, 0 ≤ l.tokens
  once : s.credited.Nodup
  back : ∀ p ∈ s.credited, ∃ l, s.objects[p]? = some l ∧ l.released = true
  mapped : ∀ entry ∈ s.bucket.leases, ∃ l, s.objects[entry.2]? = some l ∧ l.id = entry.1 ∧ l.released = false
  keys : (s.bucket.leases.map Prod.fst).Nodup

section invariant

variable {I : Type} {s : Store I}

lemma Inv.sound (inv : Inv s) : Sound s := ⟨inv.bounded.low,inv.bounded.high,inv.once⟩

lemma Inv.withBucket (inv : Inv s) {b : Bucket I} (change : b.Bounded ∧ b.leases = s.bucket.leases) :
    Inv { s with bucket := b } := by
  obtain ⟨bounded,same⟩ := change
  exact ⟨bounded,inv.amounts,inv.once,inv.back,fun entry listed => inv.mapped entry (same ▸ listed),same ▸ inv.keys⟩

variable {p : Nat} {l : Lease I}

lemma Inv.amounts_set (inv : Inv s) {l' : Lease I} (found : s.objects[p]? = some l)
    (same : l'.tokens = l.tokens) : ∀ other ∈ s.objects.set p l',0 ≤ other.tokens := by
  intro other member
  rcases mem_or_eq_of_mem_set member with before | rfl
  · exact inv.amounts other before
  · rw [same]
    exact inv.amounts l (mem_of_getElem? found)

lemma Inv.renew (inv : Inv s) (p : Nat) (now later : Time) (ttl : Int) : Inv (s.renew p now later ttl).2 := by
  unfold Store.renew
  cases found : s.objects[p]? with
  | none => exact inv
  | some l =>
    dsimp only
    split_ifs with gone expired
    · exact inv
    · exact inv
    have bound := (List.getElem?_eq_some_iff.mp found).1
    refine ⟨inv.bounded,inv.amounts_set found rfl,inv.once,?_,?_,inv.keys⟩
    · intro q member
      obtain ⟨other,there,marked⟩ := inv.back q member
      have different : p ≠ q := by
        rintro rfl
        rw [found] at there
        cases there
        exact gone marked
      exact ⟨other,by rw [getElem?_set_ne different,there],marked⟩
    · intro entry member
      obtain ⟨other,there,same,free⟩ := inv.mapped entry member
      by_cases here : p = entry.2
      · subst here
        rw [found] at there
        cases there
        exact ⟨_,getElem?_set_self bound,same,free⟩
      · exact ⟨other,by rw [getElem?_set_ne here,there],same,free⟩

lemma Inv.not_credited (inv : Inv s) (found : s.objects[p]? = some l) (free : l.released = false) :
    p ∉ s.credited := by
  intro member
  obtain ⟨other,there,marked⟩ := inv.back p member
  rw [found] at there
  cases there
  rw [free] at marked
  cases marked

variable [DecidableEq I]

lemma Inv.giveBack (inv : Inv s) (found : s.objects[p]? = some l) (free : l.released = false) :
    Inv ⟨s.bucket.delete l.id,s.objects.set p { l with released := true },p :: s.credited⟩ := by
  have bound := (List.getElem?_eq_some_iff.mp found).1
  have once := List.nodup_cons.mpr ⟨inv.not_credited found free,inv.once⟩
  refine ⟨inv.bounded.delete l.id,inv.amounts_set found rfl,once,?_,?_,?_⟩
  · intro q member
    by_cases here : p = q
    · subst here
      exact ⟨_,getElem?_set_self bound,rfl⟩
    · rcases mem_cons.mp member with same | before
      · exact absurd same.symm here
      · obtain ⟨other,there,marked⟩ := inv.back q before
        exact ⟨other,by rw [getElem?_set_ne here,there],marked⟩
  · intro entry member
    obtain ⟨before,other⟩ := mem_filter.mp member
    obtain ⟨lease,there,same,unmarked⟩ := inv.mapped entry before
    have here : p ≠ entry.2 := by
      rintro rfl
      rw [found] at there
      cases there
      simp [same] at other
    exact ⟨lease,by rw [getElem?_set_ne here,there],same,unmarked⟩
  · exact inv.keys.sublist (filter_sublist.map Prod.fst)

lemma Inv.release (inv : Inv s) (p : Nat) (now : Time) : Inv (s.release p now) := by
  unfold Store.release
  cases found : s.objects[p]? with
  | none => exact inv
  | some l =>
    dsimp only
    split_ifs with gone
    · exact inv
    · have back := inv.giveBack found (Bool.eq_false_of_not_eq_true gone)
      obtain ⟨bounded,same⟩ := back.bounded.refillLocked now
      exact back.withBucket ⟨bounded.add (inv.amounts l (mem_of_getElem? found)),same⟩

lemma Inv.register (inv : Inv s) {lease : Lease I} (amount : 0 ≤ lease.tokens) (free : lease.released = false) :
    Inv (s.register lease) := by
  have earlier : ∀ {p : Nat} {l : Lease I},s.objects[p]? = some l → (s.objects ++ [lease])[p]? = some l := by
    intro p l found
    rw [List.getElem?_append_left (List.getElem?_eq_some_iff.mp found).1,found]
  refine ⟨⟨inv.bounded.rate,inv.bounded.low,inv.bounded.high⟩,?_,inv.once,?_,?_,?_⟩
  · intro l member
    rcases mem_append.mp member with before | last
    · exact inv.amounts l before
    · rw [mem_singleton.mp last]
      exact amount
  · intro p member
    obtain ⟨l,found,marked⟩ := inv.back p member
    exact ⟨l,earlier found,marked⟩
  · intro entry member
    rcases mem_append.mp member with before | last
    · obtain ⟨l,found,same,unmarked⟩ := inv.mapped entry (mem_filter.mp before).1
      exact ⟨l,earlier found,same,unmarked⟩
    · rw [mem_singleton.mp last]
      exact ⟨lease,by simp [Store.register],rfl,free⟩
  · have others : ((s.bucket.delete lease.id).leases.map Prod.fst).Nodup :=
      inv.keys.sublist (filter_sublist.map Prod.fst)
    have fresh : lease.id ∉ (s.bucket.delete lease.id).leases.map Prod.fst := by
      simp [Bucket.delete]
    simp only [Store.register,map_append,map_cons,map_nil]
    exact nodup_append.mpr ⟨others,nodup_singleton _,fun a left c right => by
      rintro rfl
      exact fresh (mem_singleton.mp right ▸ left)⟩

lemma Inv.lease (inv : Inv s) (id : I) (tenant : String) {n : ℚ} (amount : 0 ≤ n) (ttl : Int) (times : List Time) (now : Time) :
    Inv (s.lease id tenant n ttl times now).2 := by
  have acquired := inv.withBucket (inv.bounded.acquire n times)
  unfold Store.lease
  generalize s.bucket.acquire n times = result at acquired
  obtain ⟨success,b⟩ := result
  cases success with
  | error err => exact acquired
  | ok => exact acquired.register amount rfl

lemma Inv.visits (todo : List (I × Nat)) (inv : Inv s) (count : Nat) {sum : ℚ} (positive : 0 ≤ sum)
    (there : ∀ entry ∈ todo,entry ∈ s.bucket.leases) (apart : (todo.map Prod.fst).Nodup) :
    Inv (todo.foldl (Store.visit now) (s,count,sum)).1 ∧ 0 ≤ (todo.foldl (Store.visit now) (s,count,sum)).2.2 := by
  induction todo generalizing s count sum with
  | nil => exact ⟨inv,positive⟩
  | cons entry todo ih =>
    rw [map_cons,nodup_cons] at apart
    obtain ⟨l,found,same,free⟩ := inv.mapped entry (there entry mem_cons_self)
    have later := fun other member => there other (mem_cons_of_mem _ member)
    rw [foldl_cons,Store.visit]
    simp only [found]
    split_ifs with expired
    · rw [← same]
      refine ih (inv.giveBack found free) (count + 1) (add_nonneg positive (inv.amounts l (mem_of_getElem? found))) ?_ apart.2
      intro other member
      refine mem_filter.mpr ⟨later other member,?_⟩
      have different := fun equal => apart.1 (mem_map.mpr ⟨other,member,equal⟩)
      simpa [same] using different
    · exact ih inv count positive later apart.2

lemma Inv.reapExpiredLeases (inv : Inv s) (order : RangeOrder I) (now : Time) : Inv (s.reapExpiredLeases order now).2 := by
  have perm := order.perm s.bucket.leases
  obtain ⟨after,positive⟩ := inv.visits now (order.arrange s.bucket.leases) 0 (le_refl 0) (fun _ member => perm.mem_iff.mp member)
    ((perm.map Prod.fst).nodup_iff.mpr inv.keys)
  unfold Store.reapExpiredLeases Store.reclaim
  dsimp only
  split_ifs
  · obtain ⟨bounded,same⟩ := after.bounded.refillLocked now
    exact after.withBucket ⟨bounded.add positive,same⟩
  · exact after

lemma Inv.step (call : Call I) (inv : Inv s) (clean : Clean s call) : Inv (step s call) := by
  cases call with
  | available now => exact inv.withBucket (inv.bounded.refillLocked now)
  | tryAcquire n now => exact inv.withBucket (inv.bounded.tryAcquire now n)
  | acquire n times => exact inv.withBucket (inv.bounded.acquire n times)
  | lease id tenant n ttl times now => exact inv.lease id tenant clean ttl times now
  | release p now => exact inv.release p now
  | renew p now later ttl => exact inv.renew p now later ttl
  | reapExpiredLeases order now => exact inv.reapExpiredLeases order now

/-- As long as no lease is asked for a negative amount, the tokens stay between zero and the
capacity in every state of every run, and no lease is given back twice. -/
theorem bounded_of_clean (cfg : Config) (now : Time) (calls : List (Call I)) (clean : Along step Clean (Store.new cfg now) calls) :
    Throughout step Sound (Store.new cfg now) calls := by
  have start : Inv (Store.new cfg now : Store I) :=
    ⟨Bucket.new_bounded cfg now,fun _ member => (by cases member),.nil,fun _ member => (by cases member),
      fun _ member => (by cases member),.nil⟩
  have kept :=
    Along.throughout (fun _ call inv clean => inv.step call clean) start clean
  exact kept.mono (fun _ inv => inv.sound)

end invariant

theorem bounded_lease_and_reap :
    Throughout step Sound (Store.new ⟨2,1⟩ 0 : Store Nat)
      [.tryAcquire (1 / 2) 0,.lease 7 "t" 1 5 [0] 0,.release 0 1,.lease 8 "t" 1 5 [2] 2,
        .reapExpiredLeases ⟨id,fun _ => .refl _⟩ 100,.release 1 101] :=
  bounded_of_clean ⟨2,1⟩ 0 _ ⟨trivial,by norm_num [Clean],trivial,by norm_num [Clean],trivial,trivial,trivial⟩

/-- The release of a lease of a negative amount takes tokens away. -/
theorem negative_lease_released :
    ¬Throughout step Sound (Store.new ⟨1,1⟩ 0 : Store Nat) [.lease 7 "t" (-2) 5 [] 0,.release 0 0] := by
  intro throughout
  have low := (throughout _ prefix_rfl).low
  revert low
  decide +kernel

end Tempest.TokenBucket
