import Tempest.Lib.Interaction

/-! The dead letters of `internal/webhookdelivery`. `Redeliver` takes a copy of a record in
one locked section, delivers the copy without the lock, and writes the outcome back in
another section. Goroutines take these steps in any interleaving. -/
namespace Tempest.DeadLetters
open Interaction Function

inductive DeliveryStatus
  | pending | success | retrying | deadLetter
  deriving DecidableEq

structure DeliveryAttempt where
  attemptNumber : Int
  timestamp : Int
  statusCode : Int
  duration : Int
  error : String
  deriving DecidableEq

structure DeliveryRecord (Payload : Type) where
  id : String
  endpointID : String
  payload : Payload
  status : DeliveryStatus
  attempts : List DeliveryAttempt := []
  nextRetryAt : Option Int := none
  createdAt : Int
  completedAt : Option Int := none

/-- What happens outside the worker. -/
inductive Answer
  | marshalError (text : String)
  | requestError (text : String)
  | doError (text : String)
  | response (statusCode : Int)

/-- The answer to an attempt, with the times that the worker reads and the backoff. -/
structure Outcome where
  answer : Answer
  startTime : Int
  duration : Int
  finished : Int
  delay : Int

variable {ι Payload : Type} [DecidableEq ι]

def conclude (maxRetries : Int) (o : Outcome) (record : DeliveryRecord Payload) (statusCode : Int) (errMsg : String) :
    DeliveryRecord Payload × Option String :=
  let attemptNum : Int := record.attempts.length + 1
  let attempt : DeliveryAttempt := ⟨attemptNum,o.startTime,statusCode,o.duration,errMsg⟩
  let record := { record with attempts := record.attempts ++ [attempt] }
  if 200 ≤ statusCode ∧ statusCode < 300 then
    ({ record with status := .success, completedAt := some o.finished, nextRetryAt := none },none)
  else if maxRetries ≤ attemptNum then
    ({ record with status := .deadLetter, completedAt := some o.finished, nextRetryAt := none },
      some ("delivery exhausted all " ++ toString maxRetries ++ " attempts: status " ++ toString statusCode ++ " (" ++ errMsg ++ ")"))
  else
    ({ record with status := .retrying, nextRetryAt := some (o.finished + o.delay) },
      some ("delivery failed (attempt " ++ toString attemptNum ++ "/" ++ toString maxRetries ++ "): status " ++
        toString statusCode ++ " (" ++ errMsg ++ ")"))

def deliver (maxRetries : Int) (o : Outcome) (record : DeliveryRecord Payload) : DeliveryRecord Payload × Option String :=
  match o.answer with
  | .marshalError text => (record,some ("failed to marshal payload: " ++ text))
  | .requestError text => (record,some ("failed to create request: " ++ text))
  | .doError text => conclude maxRetries o record 0 text
  | .response statusCode => conclude maxRetries o record statusCode ""

/-- Where a goroutine is in a call of `Redeliver`. -/
inductive Phase (Payload : Type)
  | idle
  | taken (id : String) (rec : DeliveryRecord Payload)
  | delivered (id : String) (rec : DeliveryRecord Payload) (err : Option String)
  | returned (err : Option String)

def Phase.id : Phase Payload → Option String
  | .taken id _ | .delivered id _ _ => some id
  | .idle | .returned _ => none

/-- The store with its goroutines. `removed` is no part of the program: it remembers which
ids were redelivered or purged after they were saved last. -/
structure State (ι Payload : Type) where
  records : String → Option (DeliveryRecord Payload) := fun _ => none
  calls : ι → Phase Payload := fun _ => .idle
  removed : String → Bool := fun _ => false

inductive Choice (ι Payload : Type)
  | save (record : DeliveryRecord Payload)
  | purge (cutoff : Int)
  | take (i : ι) (id : String)
  | deliver (i : ι) (maxRetries : Int) (o : Outcome)
  | settle (i : ι)

namespace State

def goto (s : State ι Payload) (i : ι) (phase : Phase Payload) : State ι Payload :=
  { s with calls := Function.update s.calls i phase }

def save (s : State ι Payload) (record : DeliveryRecord Payload) : State ι Payload :=
  { s with
    records := Function.update s.records record.id (some { record with status := .deadLetter })
    removed := Function.update s.removed record.id false }

def old (s : State ι Payload) (cutoff : Int) (id : String) : Bool := (s.records id).any (fun rec => rec.createdAt < cutoff)

def purge (s : State ι Payload) (cutoff : Int) : State ι Payload :=
  { s with
    records := fun id => if s.old cutoff id then none else s.records id
    removed := fun id => s.removed id || s.old cutoff id }

def take (s : State ι Payload) (i : ι) (id : String) : State ι Payload :=
  match s.calls i with
  | .idle | .returned _ =>
    match s.records id with
    | none => s.goto i (.returned (some ("dead-letter record " ++ id ++ " not found")))
    | some rec => s.goto i (.taken id { rec with status := .pending })
  | .taken .. | .delivered .. => s

def deliver (s : State ι Payload) (i : ι) (maxRetries : Int) (o : Outcome) : State ι Payload :=
  match s.calls i with
  | .taken id rec =>
    let (rec,err) := DeadLetters.deliver maxRetries o rec
    s.goto i (.delivered id rec err)
  | .idle | .delivered .. | .returned _ => s

def settle (s : State ι Payload) (i : ι) : State ι Payload :=
  match s.calls i with
  | .delivered id rec err =>
    if rec.status = .success then
      { s.goto i (.returned none) with
        records := Function.update s.records id none
        removed := Function.update s.removed id true }
    else
      { s.goto i (.returned err) with
        records := Function.update s.records id (some { rec with status := .deadLetter }) }
  | .idle | .taken .. | .returned _ => s

end State

def step (s : State ι Payload) : Choice ι Payload → State ι Payload
  | .save record => s.save record
  | .purge cutoff => s.purge cutoff
  | .take i id => s.take i id
  | .deliver i maxRetries o => s.deliver i maxRetries o
  | .settle i => s.settle i

def Final (s : State ι Payload) : Prop := ∀ id, s.removed id = true → s.records id = none

def Present (s : State ι Payload) : Choice ι Payload → Prop
  | .settle i => ∀ id rec err, s.calls i = .delivered id rec err → rec.status ≠ .success → s.records id ≠ none
  | .save _ | .purge _ | .take .. | .deliver .. => True

def Tracked (s : State ι Payload) : Prop := ∀ i id, (s.calls i).id = some id → s.removed id = true ∨ s.records id ≠ none

section Steps

variable {s : State ι Payload}

lemma goto_tracked (tracked : Tracked s) (i : ι) {phase : Phase Payload}
    (known : ∀ id,phase.id = some id → s.removed id = true ∨ s.records id ≠ none) : Tracked (s.goto i phase) := by
  intro j id inside
  by_cases same : j = i
  · unfold State.goto at inside
    dsimp only at inside
    rw [same,update_self] at inside
    exact known id inside
  · unfold State.goto at inside
    dsimp only at inside
    rw [update_of_ne same] at inside
    exact tracked j id inside

section
omit [DecidableEq ι]

lemma save_tracked (tracked : Tracked s) (record : DeliveryRecord Payload) : Tracked (s.save record) := by
  intro i id inside
  unfold State.save
  dsimp only
  by_cases same : id = record.id
  · right
    rw [same,update_self]
    exact Option.some_ne_none _
  · rw [update_of_ne same,update_of_ne same]
    exact tracked i id inside

lemma save_final (final : Final s) (record : DeliveryRecord Payload) : Final (s.save record) := by
  intro id removed
  unfold State.save at removed ⊢
  dsimp only at removed ⊢
  by_cases same : id = record.id
  · rw [same,update_self] at removed
    cases removed
  · rw [update_of_ne same] at removed ⊢
    exact final id removed

lemma purge_tracked (tracked : Tracked s) (cutoff : Int) : Tracked (s.purge cutoff) := by
  intro i id inside
  unfold State.purge
  dsimp only
  by_cases old : s.old cutoff id = true
  · simp [old]
  · rw [if_neg old]
    rcases tracked i id inside with removed | present
    · simp [removed]
    · exact .inr present

lemma purge_final (final : Final s) (cutoff : Int) : Final (s.purge cutoff) := by
  intro id removed
  unfold State.purge at removed ⊢
  dsimp only at removed ⊢
  split_ifs with old
  · rfl
  · rw [Bool.or_eq_true] at removed
    exact final id (removed.resolve_right old)

end

lemma take_cases (s : State ι Payload) (i : ι) (id : String) :
    s.take i id = s ∨ ∃ phase,s.take i id = s.goto i phase ∧ ∀ id',phase.id = some id' → s.records id' ≠ none := by
  unfold State.take
  split
  case h_1 | h_2 =>
    right
    cases found : s.records id with
    | none => exact ⟨_,rfl,fun _ none_ => by cases none_⟩
    | some rec =>
      refine ⟨_,rfl,fun id' own => ?_⟩
      cases own
      rw [found]
      exact Option.some_ne_none _
  case h_3 | h_4 => exact .inl rfl

lemma deliver_cases (s : State ι Payload) (i : ι) (maxRetries : Int) (o : Outcome) :
    s.deliver i maxRetries o = s ∨ ∃ phase,s.deliver i maxRetries o = s.goto i phase ∧ phase.id = (s.calls i).id := by
  unfold State.deliver
  split
  · next id rec taken =>
    refine .inr ⟨_,rfl,?_⟩
    rw [taken]
    rfl
  all_goals exact .inl rfl

lemma take_tracked (tracked : Tracked s) (i : ι) (id : String) : Tracked (s.take i id) := by
  rcases take_cases s i id with same | ⟨phase,moved,known⟩
  · rw [same]
    exact tracked
  · rw [moved]
    exact goto_tracked tracked i (fun id' own => .inr (known id' own))

lemma take_final (final : Final s) (i : ι) (id : String) : Final (s.take i id) := by
  rcases take_cases s i id with same | ⟨phase,moved,-⟩
  · rw [same]
    exact final
  · rw [moved]
    exact final

lemma deliver_tracked (tracked : Tracked s) (i : ι) (maxRetries : Int) (o : Outcome) :
    Tracked (s.deliver i maxRetries o) := by
  rcases deliver_cases s i maxRetries o with same | ⟨phase,moved,own⟩
  · rw [same]
    exact tracked
  · rw [moved]
    exact goto_tracked tracked i (fun id inside => tracked i id (own ▸ inside))

lemma deliver_final (final : Final s) (i : ι) (maxRetries : Int) (o : Outcome) : Final (s.deliver i maxRetries o) := by
  rcases deliver_cases s i maxRetries o with same | ⟨phase,moved,-⟩
  · rw [same]
    exact final
  · rw [moved]
    exact final

lemma settle_cases (s : State ι Payload) (i : ι) :
    (s.settle i = s ∧ ∀ id rec err,s.calls i ≠ .delivered id rec err) ∨
    (∃ id rec err,s.calls i = .delivered id rec err ∧ rec.status = .success ∧
      (s.settle i).records = update s.records id none ∧ (s.settle i).removed = update s.removed id true ∧
      (s.settle i).calls = update s.calls i (.returned none)) ∨
    ∃ id rec err,s.calls i = .delivered id rec err ∧ rec.status ≠ .success ∧
      (s.settle i).records = update s.records id (some { rec with status := .deadLetter }) ∧
      (s.settle i).removed = s.removed ∧ (s.settle i).calls = update s.calls i (.returned err) := by
  unfold State.settle
  cases phase : s.calls i with
  | delivered id rec err =>
    right
    dsimp only
    split_ifs with success
    · exact .inl ⟨id,rec,err,rfl,success,rfl,rfl,rfl⟩
    · exact .inr ⟨id,rec,err,rfl,success,rfl,rfl,rfl⟩
  | idle | taken | returned => exact .inl ⟨rfl,fun _ _ _ same => by cases same⟩

lemma settle_tracked (tracked : Tracked s) (i : ι) : Tracked (s.settle i) := by
  have others : ∀ phase id j,phase.id = none → ((update s.calls i phase) j).id = some id →
      s.removed id = true ∨ s.records id ≠ none := by
    intro phase id j outside inside
    by_cases same : j = i
    · rw [same,update_self,outside] at inside
      cases inside
    · rw [update_of_ne same] at inside
      exact tracked j id inside
  rcases settle_cases s i with ⟨same,-⟩ | ⟨id,rec,err,-,-,records,removed,calls⟩ | ⟨id,rec,err,-,-,records,removed,calls⟩
  · rw [same]
    exact tracked
  · intro j other inside
    rw [calls] at inside
    rw [records,removed]
    by_cases same : other = id
    · left
      rw [same,update_self]
    · rw [update_of_ne same,update_of_ne same]
      exact others _ other j rfl inside
  · intro j other inside
    rw [calls] at inside
    rw [records,removed]
    by_cases same : other = id
    · right
      rw [same,update_self]
      exact Option.some_ne_none _
    · rw [update_of_ne same]
      exact others _ other j rfl inside

lemma settle_final_iff (tracked : Tracked s) (final : Final s) (i : ι) : Final (s.settle i) ↔ Present s (.settle i) := by
  rcases settle_cases s i with ⟨same,other⟩ | ⟨id,rec,err,phase,success,records,removed,-⟩ |
    ⟨id,rec,err,phase,failed,records,removed,-⟩
  · rw [same]
    exact iff_of_true final (fun id rec err inside => absurd inside (other id rec err))
  · refine iff_of_true ?_ ?_
    · intro other gone
      rw [records]
      by_cases same : other = id
      · rw [same,update_self]
      · rw [removed,update_of_ne same] at gone
        rw [update_of_ne same]
        exact final other gone
    · intro id' rec' err' inside unsuccessful
      rw [phase] at inside
      cases inside
      exact absurd success unsuccessful
  · constructor
    · intro after id' rec' err' inside _ absent
      rw [phase] at inside
      cases inside
      rcases tracked i id (by rw [phase]; rfl) with gone | there
      · have missing := after id (by rw [removed]; exact gone)
        rw [records,update_self] at missing
        cases missing
      · exact there absent
    · intro present other gone
      rw [removed] at gone
      have missing := final other gone
      rw [records]
      by_cases same : other = id
      · rw [same] at missing
        exact absurd missing (present id rec err phase failed)
      · rw [update_of_ne same]
        exact missing

lemma step_tracked (tracked : Tracked s) (choice : Choice ι Payload) : Tracked (step s choice) := by
  cases choice with
  | save record => exact save_tracked tracked record
  | purge cutoff => exact purge_tracked tracked cutoff
  | take i id => exact take_tracked tracked i id
  | deliver i maxRetries o => exact deliver_tracked tracked i maxRetries o
  | settle i => exact settle_tracked tracked i

lemma step_final_iff (tracked : Tracked s) (final : Final s) (choice : Choice ι Payload) :
    Final (step s choice) ↔ Present s choice := by
  cases choice with
  | save record => exact iff_of_true (save_final final record) trivial
  | purge cutoff => exact iff_of_true (purge_final final cutoff) trivial
  | take i id => exact iff_of_true (take_final final i id) trivial
  | deliver i maxRetries o => exact iff_of_true (deliver_final final i maxRetries o) trivial
  | settle i => exact settle_final_iff tracked final i

end Steps

/-- Redelivery and purging are final in every state of a run exactly if no unsuccessful
delivery is settled after its record has left the store. -/
theorem final_throughout_iff (choices : List (Choice ι Payload)) :
    Throughout step Final {} choices ↔ Along step Present {} choices := by
  have start : Final ({} : State ι Payload) := fun _ _ => rfl
  rw [throughout_iff_along start]
  apply Along.congr (P := fun s => Tracked s ∧ Final s)
  · rintro s choice ⟨tracked,final⟩ present
    exact ⟨step_tracked tracked choice,(step_final_iff tracked final choice).mpr present⟩
  · rintro s choice ⟨tracked,final⟩
    exact step_final_iff tracked final choice
  · exact ⟨fun _ _ inside => (by cases inside),start⟩

/-- Two goroutines redeliver one record. The first succeeds and removes it, the second
fails and writes its copy back. -/
theorem overlapping_redeliveries_not_final :
    ¬ Throughout step Final ({} : State Bool Unit)
      [.save ⟨"d","ep",(),.pending,[],none,0,none⟩,.take true "d",.take false "d",
        .deliver true 5 ⟨.response 200,1,1,2,0⟩,.deliver false 5 ⟨.response 500,1,1,2,3⟩,.settle true,.settle false] := by
  intro final
  have gone := final _ List.prefix_rfl "d" (by decide)
  exact absurd gone (Option.some_ne_none _)

end Tempest.DeadLetters
