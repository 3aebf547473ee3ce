import Tempest.TokenGenerator

/-! The lease manager of `internal/fencing` over a token generator. `ExtendLease` holds
the lock of the manager from its second look at the latest token to its end, but takes
the lock of the generator for that look and again for the write; `AcquireToken` takes
the lock of the generator only. Any number of calls are under way. -/
namespace Tempest.LeaseManager
open Interaction Fencing Counter

inductive Op
  | now
  | latestToken (resource : String)
  | acquireToken (resource owner : String) (ttl : Duration)
  | lock
  | unlock
  | activate (token : FencingToken)

@[reducible] def Op.Res : Op → Type
  | now => Time
  | latestToken _ => Option FencingToken
  | acquireToken .. => FencingToken
  | lock | unlock | activate _ => Unit

/-- The comparison of a token with the latest one, which `CheckPreemption` and, under the
lock of the manager, `ExtendLease` make. -/
def compare (current : FencingToken) (message : FencingToken → String) : Option FencingToken → Option Failure
  | some latest =>
    if current.token < latest.token then some ⟨.preempted,Sentinel.preempted.text ++ ": " ++ message latest⟩ else none
  | none => none

def preemption (current : FencingToken) : Option FencingToken → Option Failure :=
  compare current (fun latest => "resource " ++ current.resource ++ " preempted by token " ++ toString latest.token ++
    " (current=" ++ toString current.token ++ ")")

def refusal (current : FencingToken) : Option FencingToken → Option Failure :=
  compare current (fun latest => "cannot extend preempted token " ++ toString current.token ++ " < " ++
    toString latest.token)

variable (p : Printer) (clock : Nat → Time)

def checkPreemption (current : FencingToken) : Prog Op.Res (Option Failure) :=
  .call .now (fun now =>
    if current.isExpired now then
      .done (some ⟨.tokenExpired,Sentinel.tokenExpired.text ++ ": token " ++ toString current.token ++ " expired at " ++
        p.time current.expiresAt⟩)
    else .call (.latestToken current.resource) (fun latest => .done (preemption current latest)))

def extend (current : FencingToken) (additionalTTL : Duration) : Prog Op.Res (FencingToken × Option Failure) :=
  .call .lock (fun _ => .call (.latestToken current.resource) (fun latest =>
    match refusal current latest with
    | some err => .call .unlock (fun _ => .done (current,some err))
    | none => .call .now (fun now =>
      let updated := { current with expiresAt := now + lifetime additionalTTL }
      .call (.activate updated) (fun _ => .call .unlock (fun _ => .done (updated,none))))))

def extendLease (current : FencingToken) (additionalTTL : Duration) : Prog Op.Res (FencingToken × Option Failure) :=
  checkPreemption p current >>= fun checked =>
    match checked with
    | some err => .done (current,some err)
    | none => extend current additionalTTL

inductive Outcome
  | checked (err : Option Failure)
  | extended (token : FencingToken) (err : Option Failure)
  | acquired (token : FencingToken)

def activate (g : TokenGenerator) (token : FencingToken) : TokenGenerator :=
  { g with activeTokens := Function.update g.activeTokens token.resource (some token) }

structure Shared where
  generator : TokenGenerator := {}
  locked : Bool := false
  tick : Nat := 0

def exec (op : Op) (sh : Shared) : op.Res × Shared :=
  match op with
  | .now => (clock sh.tick,{ sh with tick := sh.tick + 1 })
  | .latestToken resource => (sh.generator.latestToken resource,sh)
  | .acquireToken resource owner ttl =>
    let issued := sh.generator.acquireToken resource owner ttl (clock sh.tick)
    (issued.1,{ sh with generator := issued.2, tick := sh.tick + 1 })
  | .lock => ((),{ sh with locked := true })
  | .unlock => ((),{ sh with locked := false })
  | .activate token => ((),{ sh with generator := activate sh.generator token })

abbrev System := Pool Op.Res Shared Unit Outcome

inductive Choice
  | acquire (resource owner : String) (ttl : Duration)
  | check (current : FencingToken)
  | extend (current : FencingToken) (additionalTTL : Duration)
  | advance (i : Nat)

def start (s : System) (call : Prog Op.Res Outcome) : System := { s with threads := s.threads ++ [⟨(),call⟩] }

def due (s : System) : Choice → Option Op
  | .advance i => (s.upcoming i).map Prod.snd
  | .acquire .. | .check _ | .extend .. => none

def waits (s : System) (c : Choice) : Bool :=
  match due s c with
  | some .lock => s.shared.locked
  | _ => false

def act (s : System) (c : Choice) : System :=
  match c with
  | .acquire resource owner ttl => start s (.call (.acquireToken resource owner ttl) (fun token => .done (.acquired token)))
  | .check current => start s (checkPreemption p current >>= fun err => .done (.checked err))
  | .extend current additionalTTL =>
    start s (extendLease p current additionalTTL >>= fun result => .done (.extended result.1 result.2))
  | .advance i => if waits s (.advance i) then s else s.advance (exec clock) (fun _ _ _ => ()) i

def idle : System := ⟨{},[]⟩

def latestNumber (s : System) (resource : String) : UInt64 :=
  ((s.shared.generator.latestToken resource).map FencingToken.token).getD 0

def Level (s : System) : Prop := ∀ r, latestNumber s r = s.shared.generator.currentTokenNumber r

def Rises (s : System) (c : Choice) : Prop := ∀ r, latestNumber s r ≤ latestNumber (act p clock s c) r

/-- A token that a higher number has superseded does not pass the check at any later
moment. -/
def StaysPreempted (choices : List Choice) : Prop :=
  ∀ before after t, before ++ after <+: choices →
    t.token < (before.foldl (act p clock) idle).shared.generator.currentTokenNumber t.resource →
    preemption t (((before ++ after).foldl (act p clock) idle).shared.generator.latestToken t.resource) ≠ none

/-- An extended token is written only while its number is still the last one of its
resource, and the number that is drawn does not wrap around. -/
def Timely (g : TokenGenerator) : Op → Prop
  | .acquireToken resource _ _ => g.lastToken resource + 1 ≠ 0
  | .activate token => token.token = g.lastToken token.resource
  | .now | .latestToken _ | .lock | .unlock => True

def Fits (s : System) (c : Choice) : Prop := ∀ op, due s c = some op → Timely s.shared.generator op

section

variable {p clock} {s : System} {c : Choice}

lemma latestNumber_eq {s t : System} (same : t.shared.generator = s.shared.generator) :
    latestNumber t = latestNumber s := by
  funext r
  rw [latestNumber,same,latestNumber]

lemma quiet_step (level : Level s) (same : (act p clock s c).shared.generator = s.shared.generator) (fits : Fits s c) :
    (Level (act p clock s c) ∧ Rises p clock s c) ↔ Fits s c := by
  refine iff_of_true ⟨?_,?_⟩ fits
  · intro r
    rw [latestNumber_eq same,same]
    exact level r
  · intro r
    rw [latestNumber_eq same]
    exact UInt64.le_refl _

lemma acquire_step (level : Level s) {resource owner : String} {ttl : Duration} {now : Time}
    (drawn : (act p clock s c).shared.generator = (s.shared.generator.acquireToken resource owner ttl now).2) :
    (Level (act p clock s c) ∧ Rises p clock s c) ↔ s.shared.generator.lastToken resource + 1 ≠ 0 := by
  have numbers : ∀ r,latestNumber (act p clock s c) r =
      if r = resource then s.shared.generator.lastToken resource + 1 else latestNumber s r := by
    intro r
    rw [latestNumber,TokenGenerator.latestToken,drawn,acquire_activeTokens]
    split_ifs <;> rfl
  have levels : Level (act p clock s c) := by
    intro r
    rw [numbers,TokenGenerator.currentTokenNumber,drawn,acquire_lastToken]
    split_ifs
    · rfl
    · exact level r
  rw [and_iff_right levels]
  constructor
  · intro rises wrapped
    have higher := rises resource
    rw [numbers,if_pos rfl,wrapped,level resource] at higher
    have zero : s.shared.generator.lastToken resource = 0 := UInt64.le_zero_iff.mp higher
    rw [zero] at wrapped
    cases wrapped
  · intro nowrap r
    rw [numbers]
    split_ifs with same
    · rw [same,level resource]
      exact UInt64.le_of_lt (lt_next nowrap)
    · exact UInt64.le_refl _

lemma activate_step (level : Level s) {token : FencingToken}
    (written : (act p clock s c).shared.generator = activate s.shared.generator token) :
    (Level (act p clock s c) ∧ Rises p clock s c) ↔ token.token = s.shared.generator.lastToken token.resource := by
  have numbers : ∀ r,latestNumber (act p clock s c) r = if r = token.resource then token.token else latestNumber s r := by
    intro r
    simp only [latestNumber,TokenGenerator.latestToken,written,activate,Function.update_apply]
    split_ifs <;> rfl
  constructor
  · rintro ⟨levels,-⟩
    have reached := levels token.resource
    rw [numbers,if_pos rfl,written] at reached
    exact reached
  · intro current
    constructor
    · intro r
      rw [numbers,written]
      split_ifs with same
      · rw [same]
        exact current
      · exact level r
    · intro r
      rw [numbers]
      split_ifs with same
      · rw [same,level token.resource,current]
        exact UInt64.le_refl _
      · exact UInt64.le_refl _

lemma fits_iff {op : Op} (next : due s c = some op) : Fits s c ↔ Timely s.shared.generator op := by
  constructor
  · intro fits
    exact fits op next
  · intro timely other same
    cases next.symm.trans same
    exact timely

lemma fits_of_none (next : due s c = none) : Fits s c := by
  intro op same
  cases next.symm.trans same

lemma advance_iff (level : Level s) (i : Nat) :
    (Level (act p clock s (.advance i)) ∧ Rises p clock s (.advance i)) ↔ Fits s (.advance i) := by
  cases found : s.threads[i]? with
  | none =>
    apply quiet_step level
    · simp [act,Pool.advance,found]
    · apply fits_of_none
      simp [due,Pool.upcoming,found]
  | some thread =>
    obtain ⟨label,rest⟩ := thread
    cases rest with
    | done value =>
      apply quiet_step level
      · simp [act,Pool.advance,found]
      · apply fits_of_none
        simp [due,Pool.upcoming,found]
    | call op next =>
      have performs : due s (.advance i) = some op := by
        rw [due,Pool.upcoming_of_found found]
        rfl
      cases op with
      | acquireToken resource owner ttl =>
        rw [fits_iff performs]
        apply acquire_step level
        simp [act,waits,performs,Pool.advance,found,exec]
        rfl
      | activate token =>
        rw [fits_iff performs]
        apply activate_step level
        simp [act,waits,performs,Pool.advance,found,exec]
      | lock =>
        refine quiet_step level ?_ ((fits_iff performs).mpr trivial)
        simp only [act,waits,performs,Pool.advance,found,exec]
        split_ifs <;> rfl
      | now | latestToken resource | unlock =>
        refine quiet_step level ?_ ((fits_iff performs).mpr trivial)
        simp [act,waits,performs,Pool.advance,found,exec]

lemma preemption_of_lt {t : FencingToken} (level : Level s)
    (superseded : t.token < s.shared.generator.currentTokenNumber t.resource) :
    preemption t (s.shared.generator.latestToken t.resource) ≠ none := by
  rw [← level,latestNumber] at superseded
  cases latest : s.shared.generator.latestToken t.resource with
  | none =>
    rw [latest] at superseded
    exact absurd superseded UInt64.not_lt_zero
  | some other =>
    rw [latest] at superseded
    have behind : t.token < other.token := superseded
    rw [preemption,compare,if_pos behind]
    exact Option.some_ne_none _

end

lemma step_iff {s : System} (level : Level s) (c : Choice) :
    (Level (act p clock s c) ∧ Rises p clock s c) ↔ Fits s c := by
  cases c with
  | acquire resource owner ttl
  | check current
  | extend current additionalTTL => exact quiet_step level rfl (fits_of_none rfl)
  | advance i => exact advance_iff level i

lemma level_step (s : System) (c : Choice) (level : Level s) (fits : Fits s c) : Level (act p clock s c) :=
  ((step_iff p clock level c).mpr fits).1

lemma level_idle : Level idle := fun _ => rfl

lemma stays_preempted {choices : List Choice} (fits : Along (act p clock) Fits idle choices) :
    StaysPreempted p clock choices := by
  intro before after t early superseded
  obtain ⟨rest,rfl⟩ := early
  rw [Along.append,Along.append] at fits
  have reached := Along.invariant (level_step p clock) level_idle fits.1.1
  have kept : Level ((before ++ after).foldl (act p clock) idle) ∧
      t.token < ((before ++ after).foldl (act p clock) idle).shared.generator.currentTokenNumber t.resource := by
    rw [List.foldl_append]
    apply Along.invariant (P := fun s : System => Level s ∧ t.token < s.shared.generator.currentTokenNumber t.resource)
      _ ⟨reached,superseded⟩ fits.1.2
    rintro s c ⟨level,behind⟩ fit
    obtain ⟨next,rises⟩ := (step_iff p clock level c).mpr fit
    refine ⟨next,?_⟩
    rw [← next]
    rw [← level] at behind
    exact UInt64.lt_of_lt_of_le behind (rises t.resource)
  exact preemption_of_lt kept.1 kept.2

/-- In every interleaving of calls, with any clock, the latest token always carries the
last number, which never falls, and superseded tokens stay superseded, exactly if every
step fits. -/
theorem extension_preempts_iff (choices : List Choice) :
    (Throughout (act p clock) Level idle choices ∧ Along (act p clock) (Rises p clock) idle choices ∧
      StaysPreempted p clock choices) ↔ Along (act p clock) Fits idle choices := by
  constructor
  · rintro ⟨levels,rises,-⟩
    rw [throughout_iff_along level_idle] at levels
    apply Along.weaken (P := Level) _ _ level_idle (levels.and rises)
    · intro s c _ next
      exact next.1
    · intro s c level next
      exact (step_iff p clock level c).mp next
  · intro fits
    refine ⟨?_,?_,stays_preempted p clock fits⟩
    · rw [throughout_iff_along level_idle]
      exact fits.weaken (level_step p clock) (level_step p clock) level_idle
    · apply fits.weaken (level_step p clock) _ level_idle
      intro s c level fit
      exact ((step_iff p clock level c).mpr fit).2

private def firstToken : FencingToken := ⟨"r",1,"a",1,0,30 * second⟩

def resurrection : List Choice :=
  [.acquire "r" "a" 0,.advance 0,.extend firstToken 0,.advance 1,.advance 1,.advance 1,.advance 1,.advance 1,
    .acquire "r" "b" 0,.advance 2,.advance 1]

theorem extension_resurrects : ¬ (Throughout (act ⟨id,fun _ => ""⟩ (fun _ => 0)) Level idle resurrection ∧
    Along (act ⟨id,fun _ => ""⟩ (fun _ => 0)) (Rises ⟨id,fun _ => ""⟩ (fun _ => 0)) idle resurrection ∧
    StaysPreempted ⟨id,fun _ => ""⟩ (fun _ => 0) resurrection) := by
  rintro ⟨levels,-⟩
  have numbers := levels resurrection List.prefix_rfl "r"
  exact absurd numbers (by decide)

end Tempest.LeaseManager
