import Tempest.Types
import Mathlib.Algebra.Order.Ring.Int
import Mathlib.Data.List.Count
import Mathlib.Data.List.TakeWhile

/-! The sliding log of `internal/throttler`. For each key it keeps the times of the admitted
operations of the last window. Counts and limits are 64-bit integers, and their sum is
compared after it may have wrapped around; the process then dies of the entries that it
appends. -/
open List
namespace Tempest.SlidingLog

structure ThrottleConfig where
  quotaKey : String
  rateLimit : Int64
  window : Duration
  burstLimit : Int64
  deriving DecidableEq

inductive Failure
  | invalidQuotaConfig (detail : String)
  | quotaNotFound (key : String)
  deriving DecidableEq

def Failure.message : Failure → String
  | invalidQuotaConfig detail => "throttler: invalid rate limit quota configuration: " ++ detail
  | quotaNotFound key => "throttler: quota key not found: " ++ key

def ThrottleConfig.validate (c : ThrottleConfig) : Option Failure :=
  if c.quotaKey = "" then some (.invalidQuotaConfig "quota key must not be empty")
  else if c.rateLimit ≤ 0 then some (.invalidQuotaConfig "rate limit must be positive")
  else if c.window ≤ 0 then some (.invalidQuotaConfig "window duration must be positive")
  else none

structure LogEntry where
  timestamps : List Time
  config : ThrottleConfig

structure Throttler where
  quotas : String → Option LogEntry := fun _ => none

structure Decision where
  allowed : Bool
  remaining : Int64 := 0
  resetAfter : Duration := 0
  waitDuration : Duration := 0
  deriving DecidableEq

/-- A call panics when it reads the oldest entry of an empty log. It crashes when it appends
entries until there are 2^63 of them: no slice holds so many. -/
inductive Outcome
  | decided (d : Decision)
  | failed (e : Failure)
  | panicked
  | crashed
  deriving DecidableEq

namespace Throttler

def store (t : Throttler) (key : String) (entry : LogEntry) : Throttler :=
  ⟨Function.update t.quotas key (some entry)⟩

def setQuota (t : Throttler) (cfg : ThrottleConfig) : Throttler × Option Failure :=
  match cfg.validate with
  | some e => (t,some e)
  | none =>
    match t.quotas cfg.quotaKey with
    | none => (t.store cfg.quotaKey ⟨[],cfg⟩,none)
    | some entry => (t.store cfg.quotaKey { entry with config := cfg },none)

end Throttler

def purge (entry : LogEntry) (now : Time) : List Time :=
  entry.timestamps.dropWhile (fun ts => ts < now - entry.config.window)

/-- A run of the program ends with a crash. The calls that are listed after one find the log as
the purge left it. -/
def LogEntry.allowN (entry : LogEntry) (n : Int64) (now : Time) : LogEntry × Outcome :=
  let timestamps := purge entry now
  let currentCount := Int64.ofNat timestamps.length
  let capacity := entry.config.rateLimit
  if currentCount + n ≤ capacity then
    -- the loop of appends does not come to its end where the sum has wrapped around
    if 2 ^ 63 ≤ timestamps.length + n.toInt then (⟨timestamps,entry.config⟩,.crashed)
    else
      let timestamps := timestamps ++ List.replicate n.toNatClampNeg now
      let remaining := capacity - (currentCount + n)
      let resetAfter := match timestamps with
        | [] => 0
        | oldest :: _ => max 0 (entry.config.window - (now - oldest))
      (⟨timestamps,entry.config⟩,.decided { allowed := true, remaining, resetAfter })
  else
    match timestamps with
    | [] => (⟨[],entry.config⟩,.panicked)
    | oldest :: rest =>
      let waitDuration := max 1000000 (entry.config.window - (now - oldest))
      (⟨oldest :: rest,entry.config⟩,.decided { allowed := false, resetAfter := waitDuration, waitDuration })

namespace Throttler

def allowN (t : Throttler) (key : String) (n : Int64) (now : Time) : Throttler × Outcome :=
  if n ≤ 0 then (t,.decided { allowed := true })
  else
    match t.quotas key with
    | none => (t,.failed (.quotaNotFound key))
    | some entry => (t.store key (entry.allowN n now).1,(entry.allowN n now).2)

def allow (t : Throttler) (key : String) (now : Time) : Throttler × Outcome := t.allowN key 1 now

end Throttler

inductive Call
  | setQuota (cfg : ThrottleConfig)
  | allow (key : String) (now : Time)
  | allowN (key : String) (n : Int64) (now : Time)

def step (t : Throttler) : Call → Throttler
  | .setQuota cfg => (t.setQuota cfg).1
  | .allow key now => (t.allow key now).1
  | .allowN key n now => (t.allowN key n now).1

namespace Call

def time : Call → Option Time
  | .setQuota _ => none
  | .allow _ now | .allowN _ _ now => some now

def key : Call → String
  | .setQuota cfg => cfg.quotaKey
  | .allow key _ | .allowN key _ _ => key

def request : Call → Option (Int64 × Time)
  | .setQuota _ => none
  | .allow _ now => some (1,now)
  | .allowN _ n now => some (n,now)

end Call

def answer (t : Throttler) : Call → Option Outcome
  | .setQuota _ => none
  | .allow key now => some (t.allow key now).2
  | .allowN key n now => some (t.allowN key n now).2

def decisions (key : String) : Throttler → List Call → List Outcome
  | _, [] => []
  | t, call :: rest => (if call.key = key then (answer t call).toList else []) ++ decisions key (step t call) rest

def Outcome.granted : Outcome → Bool
  | decided d => d.allowed
  | failed _ | panicked | crashed => false

def operations (t : Throttler) (call : Call) : List Time :=
  match call.request with
  | none => []
  | some (n,now) => if (answer t call).any Outcome.granted then List.replicate n.toNatClampNeg now else []

def added (key : String) (t : Throttler) (call : Call) : List Time := if call.key = key then operations t call else []

def admitted (key : String) : Throttler → List Call → List Time
  | _, [] => []
  | t, call :: rest => added key t call ++ admitted key (step t call) rest

def WithinLimit (cfg : ThrottleConfig) (times : List Time) : Prop :=
  ∀ start : Time, (times.countP (fun x => start ≤ x ∧ x ≤ start + cfg.window) : Int) ≤ cfg.rateLimit.toInt

def Rising (calls : List Call) : Prop := (calls.filterMap Call.time).Pairwise (· ≤ ·)

def Fixed (cfg : ThrottleConfig) (calls : List Call) : Prop :=
  ∀ cfg', .setQuota cfg' ∈ calls → cfg'.quotaKey = cfg.quotaKey → cfg'.validate = none → cfg' = cfg

section Keys

variable {t : Throttler} {key : String}

lemma store_quotas (t : Throttler) (key : String) (entry : LogEntry) (other : String) :
    (t.store key entry).quotas other = if other = key then some entry else t.quotas other := Function.update_apply ..

def respond (key : String) (entry : Option LogEntry) (n : Int64) (now : Time) : Option LogEntry × Outcome :=
  if n ≤ 0 then (entry,.decided { allowed := true })
  else
    match entry with
    | none => (none,.failed (.quotaNotFound key))
    | some entry => (some (entry.allowN n now).1,(entry.allowN n now).2)

lemma allowN_spec (t : Throttler) (k : String) (n : Int64) (now : Time) :
    (t.allowN k n now).2 = (respond k (t.quotas k) n now).2 ∧
      ∀ key,(t.allowN k n now).1.quotas key = if key = k then (respond k (t.quotas k) n now).1 else t.quotas key := by
  unfold Throttler.allowN respond
  split_ifs with none_
  · refine ⟨rfl,fun key => ?_⟩
    split_ifs with same
    · rw [same]
    · rfl
  · cases found : t.quotas k with
    | none =>
      refine ⟨rfl,fun key => ?_⟩
      split_ifs with same
      · rw [same,found]
      · rfl
    | some entry => exact ⟨rfl,fun key => store_quotas t k _ key⟩

def configure (entry : Option LogEntry) (cfg : ThrottleConfig) : Option LogEntry :=
  match cfg.validate with
  | some _ => entry
  | none => some ⟨(entry.map LogEntry.timestamps).getD [],cfg⟩

lemma setQuota_quotas (t : Throttler) (cfg : ThrottleConfig) (key : String) :
    (t.setQuota cfg).1.quotas key = if key = cfg.quotaKey then configure (t.quotas cfg.quotaKey) cfg else t.quotas key := by
  unfold Throttler.setQuota configure
  cases cfg.validate with
  | some e =>
    split_ifs with same
    · rw [same]
    · rfl
  | none =>
    cases t.quotas cfg.quotaKey with
    | none | some entry => exact store_quotas t cfg.quotaKey _ key

def next (entry : Option LogEntry) : Call → Option LogEntry
  | .setQuota cfg => configure entry cfg
  | .allow k now => (respond k entry 1 now).1
  | .allowN k n now => (respond k entry n now).1

lemma step_quotas (t : Throttler) (call : Call) (key : String) :
    (step t call).quotas key = if key = call.key then next (t.quotas call.key) call else t.quotas key := by
  cases call with
  | setQuota cfg => exact setQuota_quotas t cfg key
  | allow k now => exact (allowN_spec t k 1 now).2 key
  | allowN k n now => exact (allowN_spec t k n now).2 key

lemma answer_eq (t : Throttler) (call : Call) :
    answer t call = call.request.map (fun r => (respond call.key (t.quotas call.key) r.1 r.2).2) := by
  cases call with
  | setQuota cfg => rfl
  | allow k now => exact congrArg some (allowN_spec t k 1 now).1
  | allowN k n now => exact congrArg some (allowN_spec t k n now).1

lemma step_other {call : Call} (apart : call.key ≠ key) : (step t call).quotas key = t.quotas key := by
  rw [step_quotas,if_neg (Ne.symm apart)]

lemma decisions_filter (calls : List Call) (t t' : Throttler) (same : t.quotas key = t'.quotas key) :
    decisions key t calls = decisions key t' (calls.filter (fun call => call.key = key)) := by
  induction calls generalizing t t' with
  | nil => rfl
  | cons call rest ih =>
    by_cases own : call.key = key
    · rw [filter_cons_of_pos (by simpa using own),decisions,decisions,if_pos own,if_pos own,answer_eq,answer_eq,own,same]
      congr 1
      apply ih
      rw [step_quotas,step_quotas,own,same]
    · rw [filter_cons_of_neg (by simpa using own),decisions,if_neg own]
      apply ih
      rw [step_other own,same]

end Keys

variable {n : Int64} {now : Time}

section Limit

variable {cfg : ThrottleConfig}

lemma sum_le_iff {count : Nat} {limit : Int64} (small : (count : Int) < 2 ^ 63) (positive : 0 < n.toInt)
    (valid : 0 < limit.toInt) :
    Int64.ofNat count + n ≤ limit ↔ count + n.toInt ≤ limit.toInt ∨ 2 ^ 63 ≤ count + n.toInt := by
  have high := Int64.toInt_lt n
  have top := Int64.toInt_lt limit
  rw [Int64.le_iff_toInt_le,Int64.toInt_add,Int64.toInt_ofNat_of_lt (by omega),Int.bmod_def]
  split_ifs <;> omega

lemma validate_eq_none : cfg.validate = none ↔ cfg.quotaKey ≠ "" ∧ 0 < cfg.rateLimit.toInt ∧ 0 < cfg.window := by
  have positive : ¬ cfg.rateLimit ≤ 0 ↔ 0 < cfg.rateLimit.toInt := by
    rw [Int64.le_iff_toInt_le]
    exact not_le
  unfold ThrottleConfig.validate
  rw [← positive]
  split_ifs with empty limit window
  · simp [empty]
  · simp [limit]
  · simp [window]
  · exact iff_of_true rfl ⟨empty,limit,not_le.mp window⟩

variable {log : List Time} {k : Nat}

/-- The log of the key is the end of the history of its operations: what is not in it is
too old for every call to come. -/
structure Held (cfg : ThrottleConfig) (t : Throttler) (history : List Time) (calls : List Call) : Prop where
  logged : ∃ dropped log, t.quotas cfg.quotaKey = some ⟨log,cfg⟩ ∧ history = dropped ++ log ∧
    (log.length : Int) ≤ cfg.rateLimit.toInt ∧ ∀ x ∈ dropped, ∀ now ∈ calls.filterMap Call.time, x < now - cfg.window
  limited : WithinLimit cfg history

lemma respond_cases (valid : cfg.validate = none) (short : (log.length : Int) ≤ cfg.rateLimit.toInt)
    (key : String) (n : Int64) (now : Time) :
    (n.toInt ≤ 0 ∧ (respond key (some ⟨log,cfg⟩) n now).1 = some ⟨log,cfg⟩) ∨
    (0 < n.toInt ∧ (respond key (some ⟨log,cfg⟩) n now).2.granted = true ∧
      (respond key (some ⟨log,cfg⟩) n now).1 = some ⟨purge ⟨log,cfg⟩ now ++ List.replicate n.toNatClampNeg now,cfg⟩ ∧
      (purge ⟨log,cfg⟩ now).length + n.toInt ≤ cfg.rateLimit.toInt) ∨
    ((respond key (some ⟨log,cfg⟩) n now).2.granted = false ∧
      (respond key (some ⟨log,cfg⟩) n now).1 = some ⟨purge ⟨log,cfg⟩ now,cfg⟩) := by
  have positive : ¬ n ≤ 0 ↔ 0 < n.toInt := by
    rw [Int64.le_iff_toInt_le]
    exact not_le
  unfold respond
  by_cases some_ : n ≤ 0
  · rw [if_pos some_]
    exact .inl ⟨not_lt.mp (fun more => positive.mpr more some_),rfl⟩
  rw [if_neg some_]
  right
  have more := positive.mp some_
  have fewer : (purge ⟨log,cfg⟩ now).length ≤ log.length := (dropWhile_sublist _).length_le
  have top := Int64.toInt_lt cfg.rateLimit
  have test := sum_le_iff (show ((purge ⟨log,cfg⟩ now).length : Int) < 2 ^ 63 by omega) more (validate_eq_none.mp valid).2.1
  unfold LogEntry.allowN
  dsimp only
  by_cases passes : Int64.ofNat (purge ⟨log,cfg⟩ now).length + n ≤ cfg.rateLimit
  · rw [if_pos passes]
    by_cases wrapped : 2 ^ 63 ≤ (purge ⟨log,cfg⟩ now).length + n.toInt
    · rw [if_pos wrapped]
      exact .inr ⟨rfl,rfl⟩
    · rw [if_neg wrapped]
      exact .inl ⟨more,rfl,rfl,(test.mp passes).resolve_right wrapped⟩
  · rw [if_neg passes]
    right
    cases purge ⟨log,cfg⟩ now with
    | nil | cons oldest rest => exact ⟨rfl,rfl⟩

lemma WithinLimit.append_now {old : List Time} (limited : WithinLimit cfg (old ++ log))
    (outside : ∀ x ∈ old,x < now - cfg.window) (room : ((log ++ List.replicate k now).length : Int) ≤ cfg.rateLimit.toInt) :
    WithinLimit cfg (old ++ (log ++ List.replicate k now)) := by
  intro start
  by_cases inside : start ≤ now ∧ now ≤ start + cfg.window
  · have none_ : old.countP (fun x => start ≤ x ∧ x ≤ start + cfg.window) = 0 := by
      rw [countP_eq_zero]
      intro x member counted
      have early := (outside x member).trans_le (sub_le_iff_le_add.mpr inside.2)
      exact absurd (of_decide_eq_true counted).1 (not_le.mpr early)
    have some_ : (log ++ List.replicate k now).countP (fun x => start ≤ x ∧ x ≤ start + cfg.window) ≤
        (log ++ List.replicate k now).length := countP_le_length
    rw [countP_append]
    omega
  · have none_ : (List.replicate k now).countP (fun x => start ≤ x ∧ x ≤ start + cfg.window) = 0 := by
      rw [countP_eq_zero]
      intro x member counted
      rw [eq_of_mem_replicate member] at counted
      exact inside (of_decide_eq_true counted)
    rw [← append_assoc,countP_append,none_]
    exact limited start

section Step

variable {t : Throttler} {history : List Time} {call : Call} {rest : List Call} {t' : Throttler}

lemma Held.idle (held : Held cfg t history (call :: rest))
    (same : t'.quotas cfg.quotaKey = t.quotas cfg.quotaKey) : Held cfg t' history rest := by
  obtain ⟨⟨dropped,log,stored,split,short,old⟩,limited⟩ := held
  have later : ∀ now ∈ rest.filterMap Call.time,now ∈ (call :: rest).filterMap Call.time := by
    intro now member
    obtain ⟨c,inside,read⟩ := mem_filterMap.mp member
    exact mem_filterMap.mpr ⟨c,mem_cons_of_mem _ inside,read⟩
  exact ⟨⟨dropped,log,same.trans stored,split,short,fun x inside now member => old x inside now (later now member)⟩,limited⟩

section
variable (asked : call.request = some (n,now))
include asked

lemma next_of_request (entry : Option LogEntry) : next entry call = (respond call.key entry n now).1 := by
  cases call with
  | setQuota cfg => cases asked
  | allow k now | allowN k n now => cases asked; rfl

lemma time_of_request : call.time = some now := by
  cases call with
  | setQuota cfg => cases asked
  | allow k now | allowN k n now => cases asked; rfl

lemma operations_of_request :
    operations t call = if (respond call.key (t.quotas call.key) n now).2.granted then List.replicate n.toNatClampNeg now else [] := by
  rw [operations,answer_eq,asked]
  rfl

end

lemma Held.advance (held : Held cfg t history (call :: rest)) (rising : Rising (call :: rest))
    (read : call.time = some now) (stored : t.quotas cfg.quotaKey = some ⟨log,cfg⟩)
    (stored' : t'.quotas cfg.quotaKey = some ⟨purge ⟨log,cfg⟩ now ++ List.replicate k now,cfg⟩)
    (room : ((purge ⟨log,cfg⟩ now ++ List.replicate k now).length : Int) ≤ cfg.rateLimit.toInt) :
    Held cfg t' (history ++ List.replicate k now) rest := by
  obtain ⟨⟨dropped,log',same,split,-,old⟩,limited⟩ := held
  rw [stored] at same
  cases same
  rw [Rising,filterMap_cons_some read,pairwise_cons] at rising
  obtain ⟨now_le,-⟩ := rising
  have here : now ∈ (call :: rest).filterMap Call.time := by
    rw [filterMap_cons_some read]
    exact mem_cons_self
  let cut := log.takeWhile (fun ts => ts < now - cfg.window)
  have whole : history = (dropped ++ cut) ++ purge ⟨log,cfg⟩ now := by
    rw [split,append_assoc]
    exact congrArg (dropped ++ ·) takeWhile_append_dropWhile.symm
  have outside : ∀ x ∈ dropped ++ cut,x < now - cfg.window := by
    intro x member
    rcases mem_append.mp member with before | purged
    · exact old x before now here
    · have passed := mem_takeWhile_imp purged
      exact of_decide_eq_true passed
  refine ⟨⟨dropped ++ cut,_,stored',?_,room,?_⟩,?_⟩
  · rw [whole,append_assoc]
  · intro x member time reads
    exact (outside x member).trans_le (sub_le_sub_right (now_le time reads) _)
  · rw [whole,append_assoc]
    rw [whole] at limited
    exact limited.append_now outside room

lemma toNatClampNeg_eq (positive : 0 < n.toInt) : (n.toNatClampNeg : Int) = n.toInt :=
  Int.toNat_of_nonneg positive.le

section
variable (held : Held cfg t history (call :: rest))
include held

lemma Held.request (valid : cfg.validate = none) (rising : Rising (call :: rest))
    (own : call.key = cfg.quotaKey) (asked : call.request = some (n,now)) :
    Held cfg (step t call) (history ++ operations t call) rest := by
  obtain ⟨dropped,log,stored,-,short,-⟩ := held.logged
  have read := time_of_request asked
  have after : (step t call).quotas cfg.quotaKey = (respond call.key (some ⟨log,cfg⟩) n now).1 := by
    rw [step_quotas,own,if_pos rfl,next_of_request asked,stored,own]
  have fewer : (purge ⟨log,cfg⟩ now).length ≤ log.length := (dropWhile_sublist _).length_le
  rw [operations_of_request asked,own,stored,← own]
  rcases respond_cases valid short call.key n now with ⟨none_,same⟩ | ⟨positive,granted,logged,sum⟩ | ⟨refused,logged⟩
  · have zero : n.toNatClampNeg = 0 := Int.toNat_of_nonpos none_
    rw [zero,replicate_zero,ite_self,append_nil]
    exact held.idle (after.trans (same.trans stored.symm))
  · have count := toNatClampNeg_eq positive
    rw [granted]
    apply held.advance rising read stored (after.trans logged)
    rw [length_append,length_replicate]
    omega
  · rw [refused]
    have logged' : (step t call).quotas cfg.quotaKey = some ⟨purge ⟨log,cfg⟩ now ++ List.replicate 0 now,cfg⟩ := by
      rw [replicate_zero,append_nil]
      exact after.trans logged
    exact held.advance rising read stored logged' (by rw [length_append,length_replicate]; push_cast; omega)

lemma Held.configured (own : call.key = cfg.quotaKey) (asked : call.request = none)
    (fixed : Fixed cfg (call :: rest)) : (step t call).quotas cfg.quotaKey = t.quotas cfg.quotaKey := by
  obtain ⟨dropped,log,stored,-,-,-⟩ := held.logged
  cases call with
  | allow k now | allowN k n now => cases asked
  | setQuota cfg' =>
    have same := own
    rw [step_quotas,own,if_pos rfl,stored,next,configure]
    cases valid : cfg'.validate with
    | some e => rfl
    | none =>
      rw [fixed cfg' mem_cons_self same valid]
      rfl

lemma Held.step (valid : cfg.validate = none) (rising : Rising (call :: rest)) (fixed : Fixed cfg (call :: rest)) :
    Held cfg (step t call) (history ++ added cfg.quotaKey t call) rest := by
  rw [added]
  by_cases own : call.key = cfg.quotaKey
  · rw [if_pos own]
    cases asked : call.request with
    | some r => exact held.request valid rising own asked
    | none =>
      rw [operations,asked,append_nil]
      exact held.idle (held.configured own asked fixed)
  · rw [if_neg own,append_nil]
    exact held.idle (step_other own)

end

end Step

lemma Rising.of_cons {call : Call} {rest : List Call} (rising : Rising (call :: rest)) : Rising rest :=
  List.Pairwise.sublist ((sublist_cons_self call rest).filterMap _) rising

lemma Held.within (valid : cfg.validate = none) (calls : List Call) {t : Throttler} {history : List Time}
    (held : Held cfg t history calls) (rising : Rising calls) (fixed : Fixed cfg calls) :
    WithinLimit cfg (history ++ admitted cfg.quotaKey t calls) := by
  induction calls generalizing t history with
  | nil =>
    rw [admitted,append_nil]
    exact held.limited
  | cons call rest ih =>
    rw [admitted,← append_assoc]
    exact ih (held.step valid rising fixed) rising.of_cons (fun cfg' member => fixed cfg' (mem_cons_of_mem _ member))

lemma Held.start {t : Throttler} (valid : cfg.validate = none) (fresh : t.quotas cfg.quotaKey = none) (calls : List Call) :
    Held cfg (t.setQuota cfg).1 [] calls := by
  have positive := (validate_eq_none.mp valid).2.1
  refine ⟨⟨[],[],?_,rfl,positive.le,fun x member => (not_mem_nil member).elim⟩,fun start => positive.le⟩
  rw [setQuota_quotas,if_pos rfl,configure,valid,fresh]
  rfl

/-- From the time a key gets its quota on, its operations stay within the limit, and what is
decided about them does not depend on the calls on other keys. -/
theorem limited_independent (t : Throttler) (cfg : ThrottleConfig) (valid : cfg.validate = none)
    (fresh : t.quotas cfg.quotaKey = none) (calls : List Call) (rising : Rising calls) (fixed : Fixed cfg calls) :
    WithinLimit cfg (admitted cfg.quotaKey (t.setQuota cfg).1 calls) ∧
      decisions cfg.quotaKey (t.setQuota cfg).1 calls =
        decisions cfg.quotaKey (t.setQuota cfg).1 (calls.filter (fun call => call.key = cfg.quotaKey)) :=
  ⟨(Held.start valid fresh calls).within valid calls rising fixed,decisions_filter calls _ _ rfl⟩

def single : ThrottleConfig := ⟨"k",1,10,0⟩

/-- The second operation is refused, the one after the window is not, a call on another key is in
between, and the last sum wraps around. -/
theorem limited_independent_two_keys :
    WithinLimit single (admitted "k" (({ } : Throttler).setQuota single).1
        [.allow "k" 0,.allow "other" 1,.allow "k" 5,.allow "k" 11,.allowN "k" 9223372036854775807 11]) ∧
      decisions "k" (({ } : Throttler).setQuota single).1
          [.allow "k" 0,.allow "other" 1,.allow "k" 5,.allow "k" 11,.allowN "k" 9223372036854775807 11] =
        decisions "k" (({ } : Throttler).setQuota single).1
          [.allow "k" 0,.allow "k" 5,.allow "k" 11,.allowN "k" 9223372036854775807 11] := by
  apply limited_independent { } single (by decide) rfl
    [.allow "k" 0,.allow "other" 1,.allow "k" 5,.allow "k" 11,.allowN "k" 9223372036854775807 11]
  · unfold Rising
    decide
  · intro cfg' member
    simp at member

end Limit

/-- A denied caller is let through when it asks again after the wait it was told, and every call
returns. -/
structure Informed (t : Throttler) (key : String) (entry : LogEntry) (n : Int64) (now : Time) : Prop where
  retry : 0 < n → n ≤ entry.config.rateLimit → ∀ d, (t.allowN key n now).2 = .decided d → d.allowed = false →
    ((t.allowN key n now).1.allowN key n (now + d.waitDuration)).2.granted = true
  returns : ∃ d, (t.allowN key n now).2 = .decided d

def Room (entry : LogEntry) (n : Int64) (now : Time) : Prop :=
  (purge entry now).length + n.toInt ≤ entry.config.rateLimit.toInt

lemma dropWhile_dropWhile_of_imp {α : Type} {p q : α → Bool} (weaker : ∀ a,p a = true → q a = true) (l : List α) :
    (l.dropWhile p).dropWhile q = l.dropWhile q := by
  induction l with
  | nil => rfl
  | cons a rest ih =>
    by_cases dropped : p a = true
    · rw [dropWhile_cons_of_pos dropped,dropWhile_cons_of_pos (weaker a dropped),ih]
    · rw [dropWhile_cons_of_neg dropped]

variable {entry : LogEntry} {oldest : Time}

lemma purge_retry {rest : List Time} (kept : purge entry now = oldest :: rest) :
    purge ⟨oldest :: rest,entry.config⟩ (now + max 1000000 (entry.config.window - (now - oldest))) =
      purge entry (now + 1000000) := by
  have later : purge entry (now + 1000000) =
      (oldest :: rest).dropWhile (fun ts => ts < now + 1000000 - entry.config.window) := by
    rw [← kept,purge,purge,dropWhile_dropWhile_of_imp]
    intro ts expired
    rw [decide_eq_true_eq] at expired ⊢
    exact Int.lt_of_lt_of_le expired (Int.sub_le_sub_right (Int.le_add_of_nonneg_right (by decide)) _)
  rw [later,purge]
  by_cases short : entry.config.window - (now - oldest) ≤ 1000000
  · rw [max_eq_left short]
  · have young : ∀ now oldest window : Int,¬ window - (now - oldest) ≤ 1000000 →
        ¬ oldest < now + 1000000 - window ∧ ¬ oldest < now + (window - (now - oldest)) - window := by omega
    obtain ⟨soon,then_⟩ := young now oldest entry.config.window short
    rw [max_eq_right (le_of_not_ge short),dropWhile_cons_of_neg (by simpa using then_),
      dropWhile_cons_of_neg (by simpa using soon)]

lemma purge_length (entry : LogEntry) (now : Time) : (purge entry now).length ≤ entry.timestamps.length :=
  (dropWhile_sublist _).length_le

lemma room_of_empty (none_ : purge entry now = []) : Room entry n now ↔ n ≤ entry.config.rateLimit := by
  rw [Room,none_,Int64.le_iff_toInt_le,length_nil,Int.natCast_zero,Int.zero_add]

section Answers
variable (valid : entry.config.validate = none) (small : (entry.timestamps.length : Int) < 2 ^ 63) (positive : 0 < n.toInt)
include valid small positive

lemma passes_iff : Int64.ofNat (purge entry now).length + n ≤ entry.config.rateLimit ↔
    Room entry n now ∨ 2 ^ 63 ≤ (purge entry now).length + n.toInt := by
  have fewer := purge_length entry now
  exact sum_le_iff (by omega) positive (validate_eq_none.mp valid).2.1

lemma allowN_granted : (entry.allowN n now).2.granted = true ↔ Room entry n now := by
  have top := Int64.toInt_lt entry.config.rateLimit
  unfold LogEntry.allowN
  dsimp only
  split_ifs with passes wrapped
  · refine ⟨nofun,fun room => ?_⟩
    unfold Room at room
    omega
  · exact ⟨fun _ => ((passes_iff valid small positive).mp passes).resolve_right wrapped,fun _ => rfl⟩
  · refine ⟨fun granted => ?_,fun room => absurd ((passes_iff valid small positive).mpr (.inl room)) passes⟩
    split at granted
    all_goals cases granted

lemma allowN_crashed (wrapped : 2 ^ 63 ≤ (purge entry now).length + n.toInt) : (entry.allowN n now).2 = .crashed := by
  unfold LogEntry.allowN
  rw [if_pos ((passes_iff valid small positive).mpr (.inr wrapped)),if_pos wrapped]

variable (full : ¬ Room entry n now) (fits : (purge entry now).length + n.toInt < 2 ^ 63)
include full fits

lemma not_passes : ¬ Int64.ofNat (purge entry now).length + n ≤ entry.config.rateLimit := by
  rw [passes_iff valid small positive,not_or]
  exact ⟨full,not_le.mpr fits⟩

lemma allowN_denied {rest : List Time} (kept : purge entry now = oldest :: rest) :
    entry.allowN n now = (⟨oldest :: rest,entry.config⟩,.decided
      { allowed := false,resetAfter := max 1000000 (entry.config.window - (now - oldest)),
        waitDuration := max 1000000 (entry.config.window - (now - oldest)) }) := by
  have refused := not_passes valid small positive full fits
  unfold LogEntry.allowN
  rw [if_neg refused,kept]

lemma allowN_panicked (none_ : purge entry now = []) : (entry.allowN n now).2 = .panicked := by
  have refused := not_passes valid small positive full fits
  unfold LogEntry.allowN
  rw [if_neg refused,none_]

end Answers

lemma informed_asked {t : Throttler} {key : String} (stored : t.quotas key = some entry)
    (positive : 0 < n) (now : Time) : Informed t key entry n now ↔
      (n ≤ entry.config.rateLimit → ∀ d,(entry.allowN n now).2 = .decided d → d.allowed = false →
        ((entry.allowN n now).1.allowN n (now + d.waitDuration)).2.granted = true) ∧
          ∃ d,(entry.allowN n now).2 = .decided d := by
  have asked := Int64.not_le.mpr positive
  have first : t.allowN key n now = (t.store key (entry.allowN n now).1,(entry.allowN n now).2) := by
    rw [Throttler.allowN,if_neg asked,stored]
  have second : ∀ later,((t.allowN key n now).1.allowN key n later).2 = ((entry.allowN n now).1.allowN n later).2 := by
    intro later
    rw [Throttler.allowN,if_neg asked,first,store_quotas,if_pos rfl]
  rw [← congrArg Prod.snd first]
  constructor
  · rintro ⟨retry,returns⟩
    exact ⟨fun within d decided refused => second _ ▸ retry positive within d decided refused,returns⟩
  · rintro ⟨retry,returns⟩
    exact ⟨fun _ within d decided refused => (second _).symm ▸ retry within d decided refused,returns⟩

/-- For a positive request the caller is told when to retry exactly if there is room now or in
one millisecond, and the call returns exactly if the entries in the window and the request are
fewer than 2^63 and it asks for no more than the limit or finds an operation in the window. -/
theorem informed_iff (t : Throttler) (key : String) (entry : LogEntry) (stored : t.quotas key = some entry)
    (valid : entry.config.validate = none) (small : (entry.timestamps.length : Int) < 2 ^ 63) (n : Int64) (now : Time) :
    Informed t key entry n now ↔ (0 < n → (purge entry now).length + n.toInt < 2 ^ 63 ∧
      (n ≤ entry.config.rateLimit → Room entry n now ∨ Room entry n (now + 1000000)) ∧
      (entry.config.rateLimit < n → purge entry now ≠ [])) := by
  by_cases asked : 0 < n
  · have positive : 0 < n.toInt := Int64.lt_iff_toInt_lt.mp asked
    rw [informed_asked stored asked,imp_iff_right asked]
    by_cases fits : (purge entry now).length + n.toInt < 2 ^ 63
    · rw [and_iff_right fits]
      by_cases room : Room entry n now
      · have granted := (allowN_granted valid small positive).mpr room
        refine iff_of_true ⟨fun _ d decided refused => ?_,?_⟩ ⟨fun _ => .inl room,fun beyond none_ => ?_⟩
        · rw [decided] at granted
          exact absurd (granted.symm.trans refused) (by decide)
        · cases outcome : (entry.allowN n now).2 with
          | decided d => exact ⟨d,rfl⟩
          | _ => rw [outcome] at granted; cases granted
        · exact Int64.not_le.mpr beyond ((room_of_empty none_).mp room)
      · cases kept : purge entry now with
        | nil =>
          have beyond := Int64.not_le.mp (fun within => room ((room_of_empty kept).mpr within))
          refine iff_of_false (fun both => ?_) (fun both => both.2 beyond rfl)
          obtain ⟨d,decided⟩ := both.2
          rw [allowN_panicked valid small positive room fits kept] at decided
          cases decided
        | cons oldest rest =>
          have fewer := purge_length entry now
          rw [kept] at fewer
          have later : ∀ time,(LogEntry.allowN ⟨oldest :: rest,entry.config⟩ n time).2.granted = true ↔
              Room ⟨oldest :: rest,entry.config⟩ n time := fun time =>
            allowN_granted valid (Int.lt_of_le_of_lt (Int.ofNat_le.mpr fewer) small) positive
          rw [allowN_denied valid small positive room fits kept]
          constructor
          · rintro ⟨retry,-⟩
            refine ⟨fun within => .inr ?_,fun _ => cons_ne_nil _ _⟩
            have again := (later _).mp (retry within _ rfl rfl)
            rwa [Room,purge_retry kept] at again
          · rintro ⟨within,-⟩
            refine ⟨fun most d decided _ => (later _).mpr ?_,_,rfl⟩
            cases decided
            rw [Room,purge_retry kept]
            exact (within most).resolve_left room
    · refine iff_of_false (fun both => ?_) (fun both => fits both.1)
      obtain ⟨d,decided⟩ := both.2
      rw [allowN_crashed valid small positive (not_lt.mp fits)] at decided
      cases decided
  · have granted : t.allowN key n now = (t,.decided { allowed := true }) := by
      rw [Throttler.allowN,if_pos (Int64.not_lt.mp asked)]
    exact ⟨fun _ positive => absurd positive asked,fun _ => ⟨fun positive => absurd positive asked,_,congrArg Prod.snd granted⟩⟩

/-- With a window of five hundred microseconds the wait is rounded up, and the entry has left the
log when it is over. -/
theorem informed_rounded : Informed ⟨fun _ => some ⟨[0],⟨"k",1,500000,0⟩⟩⟩ "k" ⟨[0],⟨"k",1,500000,0⟩⟩ 1 0 :=
  (informed_iff _ "k" _ rfl (by decide) (by decide) 1 0).mpr
    (fun _ => ⟨by decide,fun _ => .inr (by unfold Room; decide),fun _ => by decide⟩)

/-- The caller comes back when the one entry is as old as the window, and is denied again. -/
theorem retry_denied_again :
    ¬ Informed ((({ } : Throttler).setQuota ⟨"k",1,1000000,0⟩).1.allow "k" 0).1 "k" ⟨[0],⟨"k",1,1000000,0⟩⟩ 1 0 := by
  intro informed
  have granted := informed.retry (by decide) (by decide) ⟨false,0,1000000,1000000⟩ rfl rfl
  revert granted
  decide

end Tempest.SlidingLog
