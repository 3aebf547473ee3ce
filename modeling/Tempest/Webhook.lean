import Tempest.Memstore

/-! Webhook dispatch, `internal/webhook`, and to whom it posts. The dispatcher
keeps one list of endpoints, the one that its last `Load` has read, and posts
every event to all active endpoints on it. -/
open List
namespace Tempest.Webhook
open Filing

/-- What the dispatcher uses of the standard library: JSON encoding, the checks of
`http.NewRequest` on a URL, the transport and the HMAC of `Sign`. -/
structure Net where
  marshal : Event → Except String String
  checkURL : String → Except String Unit
  transport : WebhookEndpoint → Event → Except String Nat
  hmac : String → String → String

structure Request where
  url : String
  body : String
  contentType : String
  userAgent : String
  eventType : String
  eventID : String
  signature : Option String
  deriving DecidableEq

def sign (net : Net) (payload secret : String) : String := "sha256=" ++ net.hmac payload secret

def request (net : Net) (wh : WebhookEndpoint) (ev : Event) : Except String Request := do
  let body ← net.marshal ev
  net.checkURL wh.url
  return {
    url := wh.url, body, contentType := "application/json", userAgent := "tempest-webhook/1.0"
    eventType := ev.type, eventID := ev.id
    signature := if wh.secret ≠ "" then some (sign net body wh.secret) else none }

structure Posted where
  endpoint : WebhookEndpoint
  request : Request
  deriving DecidableEq

def send (net : Net) (wh : WebhookEndpoint) (ev : Event) : List Posted × Option String :=
  match request net wh ev with
  | .error e => ([],some e)
  | .ok request =>
    ([⟨wh,request⟩],
      match net.transport wh ev with
      | .error e => some ("webhook delivery to " ++ wh.url ++ " failed: " ++ e)
      | .ok status =>
        if 400 ≤ status then some ("webhook delivery to " ++ wh.url ++ " got status " ++ toString status) else none)

def sendEach (net : Net) (ev : Event) : List WebhookEndpoint → List Posted × Option String
  | [] => ([],none)
  | wh :: rest =>
    let (posted,err) := send net wh ev
    let (others,later) := sendEach net ev rest
    (posted ++ others,err.or later)

/-- A dispatcher with the store it reads. `loads` remembers, newest first, which
namespaces have been loaded and what was found; only the newest is in use. -/
structure Dispatcher where
  store : Store
  webhooks : List WebhookEndpoint := []
  loads : List (Namespace × List WebhookEndpoint) := []

namespace Dispatcher

def load (d : Dispatcher) (order : List String) (ns : Namespace) : Dispatcher :=
  let eps := d.store.listWebhookEndpoints order ns
  { d with webhooks := eps, loads := (ns,eps) :: d.loads }

def dispatch (net : Net) (d : Dispatcher) (ev : Event) : List Posted × Option String :=
  sendEach net ev (d.webhooks.filter (fun wh => wh.active))

def lastLoaded (d : Dispatcher) (ns : Namespace) : List WebhookEndpoint :=
  ((d.loads.find? (fun entry => entry.1 = ns)).map Prod.snd).getD []

end Dispatcher

inductive Act
  | create (e : WebhookEndpoint)
  | update (e : WebhookEndpoint)
  | delete (ns : Namespace) (id : String)
  | load (order : List String) (ns : Namespace)
  | dispatch (ev : Event)

def act (d : Dispatcher) : Act → Dispatcher
  | .create e => { d with store := (d.store.createWebhookEndpoint e).toOption.getD d.store }
  | .update e => { d with store := (d.store.updateWebhookEndpoint e).toOption.getD d.store }
  | .delete ns id => { d with store := (d.store.deleteWebhookEndpoint ns id).toOption.getD d.store }
  | .load order ns => d.load order ns
  | .dispatch _ => d

def lists (wh : WebhookEndpoint) (t : EventType) : Bool := wh.types = [] ∨ t ∈ wh.types

/-- A dispatch posts once to each endpoint of the event's own namespace that was
active and listed the event's type when last loaded, and to no other. -/
structure Confined (net : Net) (d : Dispatcher) (ev : Event) : Prop where
  once : ((d.dispatch net ev).1.map Posted.endpoint).Nodup
  only : ∀ wh, wh ∈ (d.dispatch net ev).1.map Posted.endpoint ↔
    wh ∈ d.lastLoaded ev.ns ∧ wh.active = true ∧ wh.ns = ev.ns ∧ lists wh ev.type = true

def sendable (net : Net) (ev : Event) (wh : WebhookEndpoint) : Bool := (request net wh ev).isOk

variable (net : Net) (s : Store)

lemma send_endpoints (ev : Event) (wh : WebhookEndpoint) :
    (send net wh ev).1.map Posted.endpoint = if sendable net ev wh then [wh] else [] := by
  unfold send sendable
  cases built : request net wh ev with
  | error e | ok request => rfl

lemma sendEach_endpoints (ev : Event) (targets : List WebhookEndpoint) :
    (sendEach net ev targets).1.map Posted.endpoint = targets.filter (sendable net ev) := by
  induction targets with
  | nil => rfl
  | cons wh rest ih =>
    simp only [sendEach,map_append,ih,send_endpoints,filter_cons]
    split_ifs <;> rfl

lemma dispatch_endpoints (d : Dispatcher) (ev : Event) (wh : WebhookEndpoint) :
    wh ∈ (d.dispatch net ev).1.map Posted.endpoint ↔ wh ∈ d.webhooks ∧ wh.active = true ∧ sendable net ev wh = true := by
  rw [Dispatcher.dispatch,sendEach_endpoints,mem_filter,mem_filter,and_assoc]

/-- What every history leaves behind. -/
structure Loaded (d : Dispatcher) : Prop where
  current : d.webhooks = (d.loads.head?.map Prod.snd).getD []
  own : ∀ entry ∈ d.loads, ∀ wh ∈ entry.2, wh.ns = entry.1
  distinct : ∀ entry ∈ d.loads, entry.2.Nodup

lemma listWebhookEndpoints_own (order : List String) (ns : Namespace) (wh : WebhookEndpoint)
    (member : wh ∈ s.listWebhookEndpoints order ns) : wh.ns = ns := by
  unfold Store.listWebhookEndpoints at member
  rw [mem_insertionSort,mem_filter] at member
  simpa using member.2

lemma listWebhookEndpoints_nodup (order : List String) (ns : Namespace) :
    (s.listWebhookEndpoints order ns).Nodup := by
  exact (perm_insertionSort _ _).nodup_iff.mpr ((s.webhooks.range_nodup order).filter _)

lemma Loaded.act {d : Dispatcher} (loaded : Loaded d) (a : Act) : Loaded (act d a) := by
  cases a with
  | load order ns =>
    refine ⟨rfl,?_,?_⟩
    · intro entry member wh inside
      rcases mem_cons.mp member with rfl | old
      · exact listWebhookEndpoints_own d.store order ns wh inside
      · exact loaded.own entry old wh inside
    · intro entry member
      rcases mem_cons.mp member with rfl | old
      · exact listWebhookEndpoints_nodup d.store order ns
      · exact loaded.distinct entry old
  | create e | update e | delete ns id => exact ⟨loaded.current,loaded.own,loaded.distinct⟩
  | dispatch ev => exact loaded

def Dispatcher.loadedFor (d : Dispatcher) : Option Namespace := d.loads.head?.map Prod.fst

section Loaded

variable {d : Dispatcher} (loaded : Loaded d)

variable (ns : Namespace)

include loaded

lemma Loaded.lastLoaded_own (wh : WebhookEndpoint) (member : wh ∈ d.lastLoaded ns) : wh.ns = ns := by
  unfold Dispatcher.lastLoaded at member
  cases found : d.loads.find? (fun entry => entry.1 = ns) with
  | none =>
    rw [found] at member
    cases member
  | some entry =>
    rw [found] at member
    have same : entry.1 = ns := by simpa using find?_some found
    rw [← same]
    exact loaded.own entry (mem_of_find?_eq_some found) wh member

lemma Loaded.webhooks_own (wh : WebhookEndpoint) (member : wh ∈ d.webhooks) : d.loadedFor = some wh.ns := by
  rw [loaded.current] at member
  cases loads : d.loads with
  | nil =>
    rw [loads] at member
    cases member
  | cons entry rest =>
    rw [loads] at member
    rw [Dispatcher.loadedFor,loads,loaded.own entry (by rw [loads]; simp) wh member]
    rfl

lemma Loaded.webhooks_nodup : d.webhooks.Nodup := by
  rw [loaded.current]
  cases loads : d.loads with
  | nil => exact nodup_nil
  | cons entry rest => exact loaded.distinct entry (by rw [loads]; simp)

lemma Loaded.webhooks_last (here : d.loadedFor = some ns) : d.webhooks = d.lastLoaded ns := by
  unfold Dispatcher.loadedFor at here
  cases loads : d.loads with
  | nil =>
    rw [loads] at here
    cases here
  | cons entry rest =>
    rw [loads] at here
    have same := Option.some.inj here
    rw [loaded.current,Dispatcher.lastLoaded,loads,find?_cons_of_pos (by simpa using same)]
    rfl

end Loaded

/-- The last load was for the event's namespace and its active endpoints are those
that list the event's type; or it was for another one and there is nobody to post to. -/
def Aimed (net : Net) (d : Dispatcher) (ev : Event) : Prop :=
  (d.loadedFor = some ev.ns ∧
    ∀ wh ∈ d.webhooks, wh.active = true → (sendable net ev wh = true ↔ lists wh ev.type = true)) ∨
  (d.loadedFor ≠ some ev.ns ∧ (∀ wh ∈ d.webhooks, wh.active = true → sendable net ev wh = false) ∧
    ∀ wh ∈ d.lastLoaded ev.ns, wh.active = true → lists wh ev.type = false)

lemma Loaded.confined_iff {d : Dispatcher} (loaded : Loaded d) (net : Net) (ev : Event) :
    Confined net d ev ↔ Aimed net d ev := by
  have posted := dispatch_endpoints net d ev
  have once : ((d.dispatch net ev).1.map Posted.endpoint).Nodup := by
    rw [Dispatcher.dispatch,sendEach_endpoints]
    exact (loaded.webhooks_nodup.filter _).filter _
  have own := loaded.lastLoaded_own ev.ns
  by_cases here : d.loadedFor = some ev.ns
  · have same := loaded.webhooks_last ev.ns here
    constructor
    · intro confined
      refine .inl ⟨here,?_⟩
      intro wh member active
      have both := confined.only wh
      rw [posted,← same] at both
      constructor
      · intro goes
        exact (both.mp ⟨member,active,goes⟩).2.2.2
      · intro listed
        exact (both.mpr ⟨member,active,own wh (by rw [← same]; exact member),listed⟩).2.2
    · intro aimed
      rcases aimed with ⟨_,agree⟩ | ⟨elsewhere,_⟩
      · refine ⟨once,fun wh => ?_⟩
        rw [posted,← same]
        constructor
        · rintro ⟨member,active,goes⟩
          exact ⟨member,active,own wh (by rw [← same]; exact member),(agree wh member active).mp goes⟩
        · rintro ⟨member,active,_,listed⟩
          exact ⟨member,active,(agree wh member active).mpr listed⟩
      · exact absurd here elsewhere
  · -- no endpoint can be both in the list in use and in the one of the event's namespace
    have apart : ∀ wh,wh ∈ d.webhooks → wh ∈ d.lastLoaded ev.ns → False := by
      intro wh inUse mine
      have known := loaded.webhooks_own wh inUse
      rw [own wh mine] at known
      exact here known
    constructor
    · intro confined
      refine .inr ⟨here,?_,?_⟩
      · intro wh member active
        by_contra goes
        have sent := (posted wh).mpr ⟨member,active,by simpa using goes⟩
        exact apart wh member ((confined.only wh).mp sent).1
      · intro wh member active
        by_contra listed
        have due := (confined.only wh).mpr ⟨member,active,own wh member,by simpa using listed⟩
        exact apart wh ((posted wh).mp due).1 member
    · intro aimed
      rcases aimed with ⟨now,_⟩ | ⟨_,unsent,unlisted⟩
      · exact absurd now here
      · refine ⟨once,fun wh => ?_⟩
        rw [posted]
        constructor
        · rintro ⟨member,active,goes⟩
          rw [unsent wh member active] at goes
          cases goes
        · rintro ⟨member,active,_,listed⟩
          rw [unlisted wh member active] at listed
          cases listed

/-- After every history, an event is posted exactly to the endpoints it is meant
for if and only if the list in use is aimed at it. -/
theorem dispatch_confined_iff (net : Net) (store : Store) (history : List Act) (ev : Event) :
    Confined net (history.foldl act { store }) ev ↔ Aimed net (history.foldl act { store }) ev := by
  have start : Loaded { store } := ⟨rfl,by simp,by simp⟩
  have loaded :=
    List.foldlRecOn history act start (fun d kept a _ => kept.act a)
  exact loaded.confined_iff net ev

def plainNet : Net where
  marshal := fun ev => .ok ev.id
  checkURL := fun _ => .ok ()
  transport := fun _ _ => .ok 200
  hmac := fun payload secret => payload ++ secret

def otherHook : WebhookEndpoint where
  id := "hook"
  ns := "other"
  url := "other.example"
  types := [eventRunFailed]
  active := true

def otherHistory : List Act := [.create otherHook,.load [] "other"]

def doneEvent : Event where
  id := "e1"
  type := eventRunCompleted
  ns := "default"
  runID := "r1"
  createdAt := 0

/-- An event of the namespace `default` is posted to the endpoint of another
namespace, which does not even list its type. -/
theorem other_receives :
    ((otherHistory.foldl act { store := .new }).dispatch plainNet doneEvent).1.map Posted.endpoint = [otherHook] ∧
      ¬ Confined plainNet (otherHistory.foldl act { store := .new }) doneEvent := by
  have sent :
      ((otherHistory.foldl act { store := .new }).dispatch plainNet doneEvent).1.map Posted.endpoint = [otherHook] := by
    decide
  refine ⟨sent,?_⟩
  intro confined
  have mine := (confined.only otherHook).mp (by rw [sent]; simp)
  exact absurd mine.2.2.1 (by decide)

end Tempest.Webhook
