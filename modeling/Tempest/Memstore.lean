import Mathlib.Data.List.Sort
import Mathlib.Data.String.Basic
import Tempest.Types
import Tempest.Lib.Filing
import Tempest.Lib.Text

/-! The in-memory store of `internal/persistence/memstore`. Every Go map of the
store is a table filed under the key string that the source computes, and every
iteration over a map takes the iteration order as an argument. Each operation
is the body of one critical section; a failed write leaves the store as it was,
so writes return the new store or an error. -/
open List
namespace Tempest
open Filing

def itoa (i : Int) : String := toString i

lemma itoa_chars (i : Int) (c : Char) (member : c ∈ (itoa i).toList) : c = '-' ∨ c.isDigit = true := by
  have digits : ∀ n : Nat,c ∈ n.repr.toList → c.isDigit = true := by
    intro n inside
    rw [Nat.toList_repr] at inside
    exact Nat.isDigit_of_mem_toDigits (by decide) (by decide) inside
  cases i with
  | ofNat n => exact .inr (digits n member)
  | negSucc n =>
    change c ∈ ("-" ++ (n + 1).repr).toList at member
    rw [String.toList_append] at member
    rcases mem_append.mp member with sign | inside
    · exact .inl (by simpa using sign)
    · exact .inr (digits (n + 1) inside)

lemma itoa_injective {i j : Int} (same : itoa i = itoa j) : i = j := by
  have unsigned : ∀ m n : Nat,m.repr.toList = n.repr.toList → m = n := by
    intro m n equal
    rw [Nat.toList_repr] at equal
    have value := congrArg (Nat.ofDigitChars 10 · 0) equal
    simpa [Nat.ofDigitChars_toDigits] using value
  have signed : ∀ m n : Nat,(itoa (.ofNat m)).toList ≠ (itoa (.negSucc n)).toList := by
    intro m n equal
    have sign : '-' ∈ m.repr.toList := by
      change m.repr.toList = ("-" ++ (n + 1).repr).toList at equal
      rw [equal]
      simp
    rw [Nat.toList_repr] at sign
    have digit := Nat.isDigit_of_mem_toDigits (by decide) (by decide) sign
    revert digit
    decide
  have texts := congrArg String.toList same
  cases i with
  | ofNat m =>
    cases j with
    | ofNat n => rw [unsigned m n texts]
    | negSucc n => exact absurd texts (signed m n)
  | negSucc m =>
    cases j with
    | ofNat n => exact absurd texts.symm (signed n m)
    | negSucc n =>
      change ("-" ++ (m + 1).repr).toList = ("-" ++ (n + 1).repr).toList at texts
      rw [String.toList_append,String.toList_append,append_cancel_left_eq] at texts
      have next := unsigned (m + 1) (n + 1) texts
      rw [Nat.succ.inj next]

def defKey (ns : Namespace) (name : String) (version : Int) : String :=
  ns ++ "/" ++ name ++ "@" ++ itoa version

def runKey (ns : Namespace) (id : String) : String := ns ++ "/" ++ id

def queueKey (ns : Namespace) (runID stepID : String) : String := ns ++ "/" ++ runID ++ "/" ++ stepID

def WorkflowID.key (id : WorkflowID) : String := defKey id.ns id.name id.version
def WorkflowDefinition.key (d : WorkflowDefinition) : String := d.id.key
def Run.key (r : Run) : String := runKey r.ns r.id
def QueueItem.key (item : QueueItem) : String := queueKey item.ns item.runID item.stepID
def WebhookEndpoint.key (e : WebhookEndpoint) : String := defKey e.ns e.id 0
def Delivery.key (d : Delivery) : String := defKey d.ns d.id 0
def APIToken.key (t : APIToken) : String := defKey t.ns t.id 0

structure Store where
  definitions : Table WorkflowDefinition.key
  runs : Table Run.key
  queue : Table QueueItem.key
  events : List Event
  webhooks : Table WebhookEndpoint.key
  tokens : Table APIToken.key
  tokenHash : Table APIToken.tokenHash
  deliveries : Table Delivery.key := .empty

namespace Store

def new : Store := ⟨.empty,.empty,.empty,[],.empty,.empty,.empty,.empty⟩

def createDefinition (s : Store) (d : WorkflowDefinition) : Except Classified Store :=
  match s.definitions.lookup d.key with
  | some _ => .error (.of .alreadyExists)
  | none => .ok { s with definitions := s.definitions.insert d }

def getDefinition (s : Store) (id : WorkflowID) : Except Classified WorkflowDefinition :=
  match s.definitions.lookup id.key with
  | none => .error (.of .notFound)
  | some d => .ok d

def latest (ns : Namespace) (name : String) (best : Option WorkflowDefinition) (d : WorkflowDefinition) :
    Option WorkflowDefinition :=
  if d.id.ns = ns ∧ d.id.name = name then
    match best with
    | none => some d
    | some b => if d.id.version > b.id.version then some d else some b
  else best

def getDefinitionByName (s : Store) (order : List String) (ns : Namespace) (name : String) :
    Except Classified WorkflowDefinition :=
  match (s.definitions.range order).foldl (latest ns name) none with
  | none => .error (.of .notFound)
  | some d => .ok d

def page {α : Type} (limit offset : Int) (rows : List α) : List α :=
  let rows := if 0 < offset then rows.drop offset.toNat else rows
  if 0 < limit ∧ limit < rows.length then rows.take limit.toNat else rows

def deleteDefinition (s : Store) (id : WorkflowID) : Except Classified Store :=
  match s.definitions.lookup id.key with
  | none => .error (.of .notFound)
  | some _ => .ok { s with definitions := s.definitions.erase id.key }

def createRun (s : Store) (r : Run) : Except Classified Store :=
  match s.runs.lookup r.key with
  | some _ => .error (.of .alreadyExists)
  | none => .ok { s with runs := s.runs.insert r }

def getRun (s : Store) (ns : Namespace) (id : String) : Except Classified Run :=
  match s.runs.lookup (runKey ns id) with
  | none => .error (.of .notFound)
  | some r => .ok r

structure RunFilter where
  ns : Namespace := ""
  workflow : String := ""
  state : Option RunState := none
  createdAfter : Option Time := none
  limit : Int := 0
  offset : Int := 0

def RunFilter.admits (f : RunFilter) (r : Run) : Bool :=
  (f.ns = "" ∨ r.ns = f.ns) ∧ (f.workflow = "" ∨ r.workflow.name = f.workflow) ∧
    (∀ state ∈ f.state, r.state = state) ∧ ∀ after ∈ f.createdAfter, after < r.createdAt

/-- The sort is by `CreatedAt` alone, newest first; runs created at the same
instant come in the order of the iteration. -/
def listRuns (s : Store) (order : List String) (f : RunFilter) : List Run :=
  page f.limit f.offset
    (((s.runs.range order).filter f.admits).insertionSort (fun a b => b.createdAt ≤ a.createdAt))

def Run.withState (r : Run) (target : RunState) (stamp : Time) : Run :=
  let r := { r with state := target }
  if r.startedAt = none ∧ (target = .running ∨ target = .succeeded ∨ target = .failed) then
    { r with startedAt := some stamp }
  else if target.isTerminal then { r with finishedAt := some stamp }
  else r

def updateRun (s : Store) (ns : Namespace) (id : String) (change : Run → Except Classified Run) :
    Except Classified Store :=
  match s.runs.lookup (runKey ns id) with
  | none => .error (.of .notFound)
  | some r => (change r).map (fun r => { s with runs := s.runs.insert r })

def updateRunState (s : Store) (ns : Namespace) (id : String) (target : RunState) (stamp : Time) :
    Except Classified Store :=
  s.updateRun ns id (fun r => .ok (Run.withState r target stamp))

def updateRunError (s : Store) (ns : Namespace) (id errMsg : String) : Except Classified Store :=
  s.updateRun ns id (fun r => .ok { r with error := errMsg })

end Store

def replaceStep (step : StepRun) : List StepRun → Option (List StepRun)
  | [] => none
  | s :: rest =>
    if s.stepID = step.stepID then some (step :: rest) else (replaceStep step rest).map (s :: ·)

namespace Store

def updateStepState (s : Store) (quote : String → String) (ns : Namespace) (id : String) (step : StepRun) :
    Except Classified Store :=
  s.updateRun ns id (fun r =>
    match replaceStep step r.steps with
    | some steps => .ok { r with steps }
    | none =>
      .error ⟨.notFound,.text ("step " ++ quote step.stepID ++ " not found in run " ++ quote id)⟩)

def enqueue (s : Store) (item : QueueItem) : Store := { s with queue := s.queue.insert item }

def visibility : Duration := 30 * second

def lease (now : Time) (item : QueueItem) : QueueItem :=
  { item with attempt := item.attempt + 1, visibleAt := now + visibility }

def dequeueLoop (token : Nat → String) (limit : Int) (now : Time) :
    List QueueItem → Table QueueItem.key → List QueueLease → List QueueLease × Table QueueItem.key
  | [], queue, out => (out,queue)
  | item :: rest, queue, out =>
    if item.visibleAt < now then
      let leased := lease now item
      let out := out ++ [⟨leased,token out.length⟩]
      let queue := queue.insert leased
      if 0 < limit ∧ limit ≤ out.length then (out,queue)
      else dequeueLoop token limit now rest queue out
    else dequeueLoop token limit now rest queue out

def dequeueAny (s : Store) (order : List String) (token : Nat → String) (limit : Int) (now : Time) :
    List QueueLease × Store :=
  let (out,queue) := dequeueLoop token limit now (s.queue.range order) s.queue []
  (out,{ s with queue })

def dequeue (s : Store) (order : List String) (token : Nat → String) (ns : Namespace) (limit : Int) (now : Time) :
    List QueueLease × Store :=
  let items := (s.queue.range order).filter (fun item => item.ns = ns)
  let (out,queue) := dequeueLoop token limit now items s.queue []
  (out,{ s with queue })

def completeStep (s : Store) (ns : Namespace) (runID stepID : String) (_leaseToken : String) :
    Except Classified Store :=
  match s.queue.lookup (queueKey ns runID stepID) with
  | none => .error (.of .notFound)
  | some _ => .ok { s with queue := s.queue.erase (queueKey ns runID stepID) }

def updateItem (s : Store) (ns : Namespace) (runID stepID : String) (change : QueueItem → QueueItem) :
    Except Classified Store :=
  match s.queue.lookup (queueKey ns runID stepID) with
  | none => .error (.of .notFound)
  | some item => .ok { s with queue := s.queue.insert (change item) }

def releaseStep (s : Store) (now : Time) (ns : Namespace) (runID stepID : String) : Except Classified Store :=
  s.updateItem ns runID stepID (fun item => { item with visibleAt := now })

def requeueWithDelay (s : Store) (ns : Namespace) (runID stepID : String) (visibleAt : Time) (attempt : Int) :
    Except Classified Store :=
  s.updateItem ns runID stepID (fun item => { item with visibleAt, attempt })

def leaseExpired (s : Store) (order : List String) (leaseTimeout : Duration) (now : Time) : List QueueItem :=
  (s.queue.range order).filter (fun item => 0 < item.attempt ∧ leaseTimeout < now - item.visibleAt)

def createWebhookEndpoint (s : Store) (e : WebhookEndpoint) : Except Classified Store :=
  match s.webhooks.lookup e.key with
  | some _ => .error (.of .alreadyExists)
  | none => .ok { s with webhooks := s.webhooks.insert e }

def getWebhookEndpoint (s : Store) (ns : Namespace) (id : String) : Except Classified WebhookEndpoint :=
  match s.webhooks.lookup (defKey ns id 0) with
  | none => .error (.of .notFound)
  | some e => .ok e

def listWebhookEndpoints (s : Store) (order : List String) (ns : Namespace) : List WebhookEndpoint :=
  ((s.webhooks.range order).filter (fun e => e.ns = ns)).insertionSort (fun a b => a.id ≤ b.id)

def updateWebhookEndpoint (s : Store) (e : WebhookEndpoint) : Except Classified Store :=
  match s.webhooks.lookup e.key with
  | none => .error (.of .notFound)
  | some _ => .ok { s with webhooks := s.webhooks.insert e }

def deleteWebhookEndpoint (s : Store) (ns : Namespace) (id : String) : Except Classified Store :=
  match s.webhooks.lookup (defKey ns id 0) with
  | none => .error (.of .notFound)
  | some _ => .ok { s with webhooks := s.webhooks.erase (defKey ns id 0) }

def createDelivery (s : Store) (d : Delivery) : Except Classified Store :=
  match s.deliveries.lookup d.key with
  | some _ => .error (.of .alreadyExists)
  | none => .ok { s with deliveries := s.deliveries.insert d }

def updateDelivery (s : Store) (d : Delivery) : Except Classified Store :=
  match s.deliveries.lookup d.key with
  | none => .error (.of .notFound)
  | some _ => .ok { s with deliveries := s.deliveries.insert d }

def createToken (s : Store) (t : APIToken) : Except Classified Store :=
  match s.tokens.lookup t.key with
  | some _ => .error (.of .alreadyExists)
  | none =>
    .ok { s with
      tokens := s.tokens.insert t
      tokenHash := if t.tokenHash ≠ "" then s.tokenHash.insert t else s.tokenHash }

def getToken (s : Store) (ns : Namespace) (id : String) : Except Classified APIToken :=
  match s.tokens.lookup (defKey ns id 0) with
  | none => .error (.of .notFound)
  | some t => .ok t

def lookupTokenByHash (s : Store) (hash : String) : Except Classified APIToken :=
  match s.tokenHash.lookup hash with
  | none => .error (.of .notFound)
  | some t => .ok t

def deleteToken (s : Store) (ns : Namespace) (id : String) : Except Classified Store :=
  match s.tokens.lookup (defKey ns id 0) with
  | none => .error (.of .notFound)
  | some t =>
    .ok { s with
      tokens := s.tokens.erase (defKey ns id 0)
      tokenHash := if t.tokenHash ≠ "" then s.tokenHash.erase t.tokenHash else s.tokenHash }

def Run.expired (cutoff : Time) (r : Run) : Bool := r.finishedAt.any (· < cutoff) ∧ r.state.isTerminal

def listExpiredRuns (s : Store) (order : List String) (cutoff : Time) (limit : Int) : List Run :=
  let out := (s.runs.range order).filter (Run.expired cutoff)
  page limit 0 (out.insertionSort (fun a b => a.finishedAt.getD 0 ≤ b.finishedAt.getD 0))

def deleteRuns (s : Store) : List String → Nat × Store
  | [] => (0,s)
  | id :: rest =>
    let gone := s.runs.rows.filter (fun r => r.id = id)
    let next := { s with
      runs := s.runs.filter (fun r => r.id ≠ id)
      queue := s.queue.filter (fun item => ¬ Text.contains item.key ("/" ++ id ++ "/")) }
    let (deleted,last) := deleteRuns next rest
    (gone.length + deleted,last)

def compactRuns (s : Store) (order : List String) (before : Time) (limit : Int) : Nat × Store :=
  s.deleteRuns ((s.listExpiredRuns order before limit).map Run.id)

def settled (s : Store) : Except Classified Store → Store
  | .ok next => next
  | .error _ => s

variable (ns : Namespace) (s : Store) (r : Run) (name : String) (order : List String) (target : RunState)

variable (rows : List WorkflowDefinition) (stamp : Time)

private lemma foldl_latest (best : Option WorkflowDefinition) (d : WorkflowDefinition) (found : rows.foldl (latest ns name) best = some d) :
    best = some d ∨ d ∈ rows ∧ d.id.ns = ns ∧ d.id.name = name := by
  induction rows generalizing best with
  | nil => exact .inl found
  | cons row rest ih =>
    rcases ih _ found with picked | ⟨inside,named⟩
    · unfold latest at picked
      split_ifs at picked with named
      · cases best with
        | none =>
          cases picked
          exact .inr ⟨by simp,named⟩
        | some b =>
          dsimp only at picked
          split_ifs at picked
          · cases picked
            exact .inr ⟨by simp,named⟩
          · exact .inl picked
      · exact .inl picked
    · exact .inr ⟨mem_cons_of_mem _ inside,named⟩

lemma getDefinitionByName_ok (ns : Namespace) (name : String)
    (d : WorkflowDefinition) (ok : s.getDefinitionByName order ns name = .ok d) :
    s.definitions.lookup d.id.key = some d ∧ d.id.ns = ns ∧ d.id.name = name := by
  unfold getDefinitionByName at ok
  cases found : (s.definitions.range order).foldl (latest ns name) none with
  | none => simp [found] at ok
  | some best =>
    rw [found] at ok
    cases ok
    rcases foldl_latest ns name _ none d found with wrong | ⟨inside,named⟩
    · cases wrong
    · exact ⟨s.definitions.lookup_of_mem ((s.definitions.mem_range order d).mp inside),named⟩

private lemma latest_some (b d : WorkflowDefinition) :
    ∃ best,latest ns name (some b) d = some best ∧ b.id.version ≤ best.id.version := by
  unfold latest
  split_ifs with named
  · dsimp only
    split_ifs with newer
    · exact ⟨d,rfl,by omega⟩
    · exact ⟨b,rfl,le_rfl⟩
  · exact ⟨b,rfl,le_rfl⟩

private lemma foldl_latest_some (b : WorkflowDefinition) :
    ∃ best,rows.foldl (latest ns name) (some b) = some best ∧ b.id.version ≤ best.id.version := by
  induction rows generalizing b with
  | nil => exact ⟨b,rfl,le_rfl⟩
  | cons row rest ih =>
    obtain ⟨next,picked,newer⟩ := latest_some ns name b row
    obtain ⟨best,found,newest⟩ := ih next
    refine ⟨best,?_,newer.trans newest⟩
    rw [foldl_cons,picked]
    exact found

private lemma foldl_latest_newest (start : Option WorkflowDefinition) (d : WorkflowDefinition) (member : d ∈ rows)
    (named : d.id.ns = ns ∧ d.id.name = name) :
    ∃ best,rows.foldl (latest ns name) start = some best ∧ d.id.version ≤ best.id.version := by
  induction rows generalizing start with
  | nil => cases member
  | cons row rest ih =>
    rw [foldl_cons]
    rcases mem_cons.mp member with rfl | inside
    · have picked : ∃ next,latest ns name start d = some next ∧ d.id.version ≤ next.id.version := by
        unfold latest
        rw [if_pos named]
        cases start with
        | none => exact ⟨d,rfl,le_rfl⟩
        | some b =>
          dsimp only
          split_ifs with newer
          · exact ⟨d,rfl,le_rfl⟩
          · exact ⟨b,rfl,by omega⟩
      obtain ⟨next,here,newer⟩ := picked
      obtain ⟨best,found,newest⟩ := foldl_latest_some ns name rest next
      rw [here]
      exact ⟨best,found,newer.trans newest⟩
    · exact ih _ inside

lemma getDefinitionByName_error (ns : Namespace) (name : String) (e : Classified)
    (error : s.getDefinitionByName order ns name = .error e) :
    e = .of .notFound ∧ ∀ d ∈ s.definitions.rows,¬ (d.id.ns = ns ∧ d.id.name = name) := by
  unfold getDefinitionByName at error
  cases found : (s.definitions.range order).foldl (latest ns name) none with
  | some best => simp [found] at error
  | none =>
    rw [found] at error
    cases error
    refine ⟨rfl,?_⟩
    intro d stored named
    obtain ⟨best,wrong,_⟩ := foldl_latest_newest ns name _ none d ((s.definitions.mem_range order d).mpr stored) named
    rw [found] at wrong
    cases wrong

lemma getDefinitionByName_latest (ns : Namespace) (name : String)
    (d other : WorkflowDefinition) (ok : s.getDefinitionByName order ns name = .ok d)
    (stored : other ∈ s.definitions.rows) (named : other.id.ns = ns ∧ other.id.name = name) :
    other.id.version ≤ d.id.version := by
  obtain ⟨best,found,newer⟩ := foldl_latest_newest ns name _ none other
    ((s.definitions.mem_range order other).mpr stored) named
  rw [getDefinitionByName,found] at ok
  cases ok
  exact newer

lemma getDefinitionByName_newest (d : WorkflowDefinition) (stored : s.definitions.lookup d.key = some d)
    (newest : ∀ other ∈ s.definitions.rows,other.id.ns = d.id.ns → other.id.name = d.id.name →
      other.id.version ≤ d.id.version) : s.getDefinitionByName order d.id.ns d.id.name = .ok d := by
  have member := (s.definitions.mem_range order d).mpr (s.definitions.lookup_mem stored)
  obtain ⟨best,found,newer⟩ := foldl_latest_newest d.id.ns d.id.name _ none d member ⟨rfl,rfl⟩
  rcases foldl_latest d.id.ns d.id.name _ none best found with wrong | ⟨inside,ns,name⟩
  · cases wrong
  · have known := (s.definitions.mem_range order best).mp inside
    have version := le_antisymm (newest best known ns name) newer
    have same : best.key = d.key := by
      rw [WorkflowDefinition.key,WorkflowDefinition.key,WorkflowID.key,WorkflowID.key,ns,name,version]
    rw [s.definitions.key_injective known (s.definitions.lookup_mem stored) same] at found
    rw [getDefinitionByName,found]

lemma createDefinition_ok (s s' : Store) (d : WorkflowDefinition) (ok : s.createDefinition d = .ok s') :
    s.definitions.lookup d.key = none ∧ s' = { s with definitions := s.definitions.insert d } := by
  unfold createDefinition at ok
  cases found : s.definitions.lookup d.key with
  | some old => simp [found] at ok
  | none => exact ⟨rfl,by simpa [found] using ok.symm⟩

lemma createRun_ok (s s' : Store) (r : Run) (ok : s.createRun r = .ok s') :
    s.runs.lookup r.key = none ∧ s' = { s with runs := s.runs.insert r } := by
  unfold createRun at ok
  cases found : s.runs.lookup r.key with
  | some old => simp [found] at ok
  | none => exact ⟨rfl,by simpa [found] using ok.symm⟩

lemma completeStep_ok (s s' : Store) (ns : Namespace) (runID stepID token : String)
    (ok : s.completeStep ns runID stepID token = .ok s') : (s.queue.lookup (queueKey ns runID stepID)).isSome ∧
      s' = { s with queue := s.queue.erase (queueKey ns runID stepID) } := by
  unfold completeStep at ok
  cases found : s.queue.lookup (queueKey ns runID stepID) with
  | none => simp [found] at ok
  | some item => exact ⟨rfl,by simpa [found] using ok.symm⟩

lemma updateItem_ok (s s' : Store) (ns : Namespace) (runID stepID : String) (change : QueueItem → QueueItem)
    (ok : s.updateItem ns runID stepID change = .ok s') :
    ∃ item,s.queue.lookup (queueKey ns runID stepID) = some item ∧
      s' = { s with queue := s.queue.insert (change item) } := by
  unfold updateItem at ok
  cases found : s.queue.lookup (queueKey ns runID stepID) with
  | none => simp [found] at ok
  | some item => exact ⟨item,rfl,by simpa [found] using ok.symm⟩

lemma updateRun_ok (s s' : Store) (ns : Namespace) (id : String) (change : Run → Except Classified Run)
    (ok : s.updateRun ns id change = .ok s') : ∃ r r',s.runs.lookup (runKey ns id) = some r ∧ change r = .ok r' ∧
      s' = { s with runs := s.runs.insert r' } := by
  unfold updateRun at ok
  cases found : s.runs.lookup (runKey ns id) with
  | none => simp [found] at ok
  | some r =>
    rw [found] at ok
    cases changed : change r with
    | error e => simp [changed,Except.map] at ok
    | ok r' =>
      simp only [changed,Except.map,Except.ok.injEq] at ok
      exact ⟨r,r',rfl,changed,ok.symm⟩

@[simp] lemma withState_ns : (Run.withState r target stamp).ns = r.ns := by
  unfold Run.withState
  dsimp only
  split_ifs <;> rfl

@[simp] lemma withState_id : (Run.withState r target stamp).id = r.id := by
  unfold Run.withState
  dsimp only
  split_ifs <;> rfl

@[simp] lemma withState_workflow : (Run.withState r target stamp).workflow = r.workflow := by
  unfold Run.withState
  dsimp only
  split_ifs <;> rfl

@[simp] lemma withState_state : (Run.withState r target stamp).state = target := by
  unfold Run.withState
  dsimp only
  split_ifs <;> rfl

@[simp] lemma withState_steps : (Run.withState r target stamp).steps = r.steps := by
  unfold Run.withState
  dsimp only
  split_ifs <;> rfl

@[simp] lemma withState_key : (Run.withState r target stamp).key = r.key := by
  simp [Run.key]

end Store

end Tempest
