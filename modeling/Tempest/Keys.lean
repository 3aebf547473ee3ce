import Tempest.Memstore
import Tempest.Lib.Access

/-! The composite keys of the in-memory store. Each map of the store is a shelf: the
names that callers give for its entries, the text that the store files a name
under, and the operations that act on the entry of a name. -/
namespace Tempest.Keys
open Filing Table

inductive Reply
  | done
  | definition (d : WorkflowDefinition)
  | run (r : Run)
  | endpoint (e : WebhookEndpoint)
  | token (t : APIToken)
  | failed (e : Classified)

def settle (s : Store) : Except Classified Store → Reply × Store
  | .ok s' => (.done,s')
  | .error e => (.failed e,s)

def reply {α : Type} (found : α → Reply) : Except Classified α → Reply
  | .ok row => found row
  | .error e => .failed e

/-- Every map of the store is such that an operation looks at the text of its name
only (`keyed`), and that, if another name has the same text, the answer of some
operation depends on the entry of that other name (`told`). -/
structure Shelf where
  Row : Type
  Name : Type
  Operation : Type
  name : Row → Name
  text : Name → String
  key : Row → String
  filed : ∀ row, key row = text (name row)
  table : Store → Table key
  target : Operation → Name
  perform : Operation → Store → Reply × Store
  keyed : ∀ op, ∃ a : Access key Reply, a.target = text (target op) ∧
    ∀ s, (perform op s).1 = (a.run (table s)).1 ∧ table (perform op s).2 = (a.run (table s)).2
  told : ∀ x y, text x = text y → x ≠ y → ∃ op s s', target op = x ∧ SameBut name y (table s) (table s') ∧
    (perform op s).1 ≠ (perform op s').1

/-- No operation on the entry of `x` changes, removes or creates an entry of `y`, and
neither its answer nor what it does to other entries depends on the entry of `y`. -/
def Shelf.Isolated (shelf : Shelf) (x y : shelf.Name) : Prop :=
  ∀ op, shelf.target op = x →
    (∀ s row, shelf.name row = y →
      (row ∈ (shelf.table (shelf.perform op s).2).rows ↔ row ∈ (shelf.table s).rows)) ∧
    ∀ s s', SameBut shelf.name y (shelf.table s) (shelf.table s') →
      (shelf.perform op s).1 = (shelf.perform op s').1 ∧
        SameBut shelf.name y (shelf.table (shelf.perform op s).2) (shelf.table (shelf.perform op s').2)

variable (shelf : Shelf) (ns : Namespace)

lemma Shelf.not_isolated {x y : shelf.Name} (distinct : x ≠ y) (collide : shelf.text x = shelf.text y) :
    ¬ shelf.Isolated x y := by
  intro isolated
  obtain ⟨op,s,s',aimed,same,differ⟩ := shelf.told x y collide distinct
  exact differ ((isolated op aimed).2 s s' same).1

lemma Shelf.isolated_iff_text (x y : shelf.Name) (distinct : x ≠ y) :
    shelf.Isolated x y ↔ shelf.text x ≠ shelf.text y := by
  constructor
  · exact fun isolated collide => shelf.not_isolated distinct collide isolated
  · intro different op aimed
    obtain ⟨a,target,performs⟩ := shelf.keyed op
    have apart : ∀ row,shelf.name row = y → shelf.key row ≠ a.target := by
      intro row named
      rw [shelf.filed,target,aimed,named]
      exact different.symm
    constructor
    · intro s row named
      rw [(performs s).2]
      exact a.run_other _ row (apart row named)
    · intro s s' same
      rw [(performs s).1,(performs s').1,(performs s).2,(performs s').2]
      exact ⟨a.run_reply apart same,a.run_same apart same⟩

lemma sameBut_single {V N : Type} {key : V → String} (name : V → N) (row : V) :
    SameBut name (name row) ((Table.empty : Table key).insert row) Table.empty := by
  intro other different
  rw [mem_insert]
  constructor
  · rintro (rfl | ⟨member,_⟩)
    · exact absurd rfl different
    · exact member
  · intro member
    cases member

inductive DefinitionOp
  | create (d : WorkflowDefinition)
  | get (id : WorkflowID)
  | delete (id : WorkflowID)

def definitions : Shelf where
  Row := WorkflowDefinition
  Name := WorkflowID
  Operation := DefinitionOp
  name := WorkflowDefinition.id
  text := WorkflowID.key
  key := WorkflowDefinition.key
  filed := fun _ => rfl
  table := Store.definitions
  target
    | .create d => d.id
    | .get id | .delete id => id
  perform
    | .create d, s => settle s (s.createDefinition d)
    | .get id, s => (reply .definition (s.getDefinition id),s)
    | .delete id, s => settle s (s.deleteDefinition id)
  keyed := by
    rintro (d | id | id)
    · refine ⟨.create d .done (.failed (.of .alreadyExists)),rfl,fun s => ?_⟩
      simp only [Store.createDefinition,Access.run,Access.create]
      cases s.definitions.lookup d.key <;> exact ⟨rfl,rfl⟩
    · refine ⟨.read id.key (.failed (.of .notFound)) .definition,rfl,fun s => ?_⟩
      simp only [Store.getDefinition,Access.run,Access.read]
      cases s.definitions.lookup id.key <;> exact ⟨rfl,rfl⟩
    · refine ⟨.remove id.key (.failed (.of .notFound)) .done,rfl,fun s => ?_⟩
      simp only [Store.deleteDefinition,Access.run,Access.remove]
      cases s.definitions.lookup id.key <;> exact ⟨rfl,rfl⟩
  told := by
    intro x y same _
    let row : WorkflowDefinition := { id := y, steps := [] }
    refine ⟨.get x,{ Store.new with definitions := Store.new.definitions.insert row },.new,rfl,sameBut_single _ row,?_⟩
    have found : (Store.new.definitions.insert row).lookup x.key = some row := by
      rw [same]
      exact lookup_insert_self _ row
    simp only [reply,Store.getDefinition,found]
    exact nofun

inductive RunOp
  | create (r : Run)
  | get (ns : Namespace) (id : String)
  | updateState (ns : Namespace) (id : String) (target : RunState) (stamp : Time)
  | updateError (ns : Namespace) (id errMsg : String)
  | updateStep (quote : String → String) (ns : Namespace) (id : String) (step : StepRun)

lemma updateRun_keyed (id : String) (update : Run → Except Classified Run)
    (keeps : ∀ r r',update r = .ok r' → r'.key = r.key) : ∃ a : Access Run.key Reply,a.target = runKey ns id ∧
      ∀ s,(settle s (s.updateRun ns id update)).1 = (a.run s.runs).1 ∧
        (settle s (s.updateRun ns id update)).2.runs = (a.run s.runs).2 := by
  let outcome : Run → Reply × Option Run := fun r =>
    match update r with
    | .ok new => (.done,some new)
    | .error e => (.failed e,none)
  refine ⟨.modify (runKey ns id) (.failed (.of .notFound)) outcome ?_,rfl,fun s => ?_⟩
  · intro old new filed made
    simp only [outcome] at made
    cases updated : update old with
    | error e => simp [updated] at made
    | ok r =>
      simp only [updated,Option.some.injEq] at made
      rw [← made,keeps old r updated,filed]
  · simp only [Store.updateRun,Access.run,Access.modify,outcome]
    cases s.runs.lookup (runKey ns id) with
    | none => exact ⟨rfl,rfl⟩
    | some r =>
      cases updated : update r <;> simp [settle,updated,Except.map,change]

def runs : Shelf where
  Row := Run
  Name := Namespace × String
  Operation := RunOp
  name := fun r => (r.ns,r.id)
  text := fun x => runKey x.1 x.2
  key := Run.key
  filed := fun _ => rfl
  table := Store.runs
  target
    | .create r => (r.ns,r.id)
    | .get ns id | .updateState ns id .. | .updateError ns id _ | .updateStep _ ns id _ => (ns,id)
  perform
    | .create r, s => settle s (s.createRun r)
    | .get ns id, s => (reply .run (s.getRun ns id),s)
    | .updateState ns id target stamp, s => settle s (s.updateRunState ns id target stamp)
    | .updateError ns id errMsg, s => settle s (s.updateRunError ns id errMsg)
    | .updateStep quote ns id step, s => settle s (s.updateStepState quote ns id step)
  keyed := by
    rintro (r | ⟨ns,id⟩ | ⟨ns,id,target,stamp⟩ | ⟨ns,id,errMsg⟩ | ⟨quote,ns,id,step⟩)
    · refine ⟨.create r .done (.failed (.of .alreadyExists)),rfl,fun s => ?_⟩
      simp only [Store.createRun,Access.run,Access.create]
      cases s.runs.lookup r.key <;> exact ⟨rfl,rfl⟩
    · refine ⟨.read (runKey ns id) (.failed (.of .notFound)) .run,rfl,fun s => ?_⟩
      simp only [Store.getRun,Access.run,Access.read]
      cases s.runs.lookup (runKey ns id) <;> exact ⟨rfl,rfl⟩
    · apply updateRun_keyed
      intro r r' made
      cases made
      exact Store.withState_key r target stamp
    · apply updateRun_keyed
      intro r r' made
      cases made
      rfl
    · apply updateRun_keyed
      intro r r' made
      cases found : replaceStep step r.steps with
      | none => simp [found] at made
      | some steps =>
        simp only [found,Except.ok.injEq] at made
        rw [← made]
        rfl
  told := by
    intro x y same _
    let row : Run :=
      { id := y.2, ns := y.1, workflow := ⟨"","",0⟩, state := .pending, input := ⟨⟨"","",0⟩,[]⟩, steps := [], createdAt := 0 }
    refine ⟨.get x.1 x.2,{ Store.new with runs := Store.new.runs.insert row },.new,rfl,sameBut_single _ row,?_⟩
    have found : (Store.new.runs.insert row).lookup (runKey x.1 x.2) = some row := by
      rw [same]
      exact lookup_insert_self _ row
    simp only [reply,Store.getRun,found]
    exact nofun

inductive ItemOp
  | enqueue (item : QueueItem)
  | complete (ns : Namespace) (runID stepID leaseToken : String)
  | release (now : Time) (ns : Namespace) (runID stepID : String)
  | requeue (ns : Namespace) (runID stepID : String) (visibleAt : Time) (attempt : Int)

lemma updateItem_keyed (runID stepID : String) (update : QueueItem → QueueItem)
    (keeps : ∀ item,(update item).key = item.key) :
    ∃ a : Access QueueItem.key Reply,a.target = queueKey ns runID stepID ∧
      ∀ s,(settle s (s.updateItem ns runID stepID update)).1 = (a.run s.queue).1 ∧
        (settle s (s.updateItem ns runID stepID update)).2.queue = (a.run s.queue).2 := by
  refine ⟨.modify (queueKey ns runID stepID) (.failed (.of .notFound)) (fun item => (.done,some (update item))) ?_,
    rfl,fun s => ?_⟩
  · intro old new filed made
    cases made
    rw [keeps,filed]
  · simp only [Store.updateItem,Access.run,Access.modify]
    cases s.queue.lookup (queueKey ns runID stepID) <;> exact ⟨rfl,rfl⟩

def queue : Shelf where
  Row := QueueItem
  Name := Namespace × String × String
  Operation := ItemOp
  name := fun item => (item.ns,item.runID,item.stepID)
  text := fun x => queueKey x.1 x.2.1 x.2.2
  key := QueueItem.key
  filed := fun _ => rfl
  table := Store.queue
  target
    | .enqueue item => (item.ns,item.runID,item.stepID)
    | .complete ns runID stepID _ | .release _ ns runID stepID | .requeue ns runID stepID .. => (ns,runID,stepID)
  perform
    | .enqueue item, s => (.done,s.enqueue item)
    | .complete ns runID stepID leaseToken, s => settle s (s.completeStep ns runID stepID leaseToken)
    | .release now ns runID stepID, s => settle s (s.releaseStep now ns runID stepID)
    | .requeue ns runID stepID visibleAt attempt, s => settle s (s.requeueWithDelay ns runID stepID visibleAt attempt)
  keyed := by
    rintro (item | ⟨ns,runID,stepID,leaseToken⟩ | ⟨now,ns,runID,stepID⟩ | ⟨ns,runID,stepID,visibleAt,attempt⟩)
    · exact ⟨.write item .done,rfl,fun _ => ⟨rfl,rfl⟩⟩
    · refine ⟨.remove (queueKey ns runID stepID) (.failed (.of .notFound)) .done,rfl,fun s => ?_⟩
      simp only [Store.completeStep,Access.run,Access.remove]
      cases s.queue.lookup (queueKey ns runID stepID) <;> exact ⟨rfl,rfl⟩
    · exact updateItem_keyed ns runID stepID _ (fun _ => rfl)
    · exact updateItem_keyed ns runID stepID _ (fun _ => rfl)
  told := by
    intro x y same _
    let row : QueueItem :=
      { runID := y.2.1, ns := y.1, stepID := y.2.2, enqueuedAt := 0, visibleAt := 0, attempt := 0 }
    refine ⟨.complete x.1 x.2.1 x.2.2 "",{ Store.new with queue := Store.new.queue.insert row },.new,rfl,
      sameBut_single _ row,?_⟩
    have found : (Store.new.queue.insert row).lookup (queueKey x.1 x.2.1 x.2.2) = some row := by
      rw [same]
      exact lookup_insert_self _ row
    simp only [settle,Store.completeStep,found]
    exact nofun

inductive WebhookOp
  | create (e : WebhookEndpoint)
  | get (ns : Namespace) (id : String)
  | update (e : WebhookEndpoint)
  | delete (ns : Namespace) (id : String)

def webhooks : Shelf where
  Row := WebhookEndpoint
  Name := Namespace × String
  Operation := WebhookOp
  name := fun e => (e.ns,e.id)
  text := fun x => defKey x.1 x.2 0
  key := WebhookEndpoint.key
  filed := fun _ => rfl
  table := Store.webhooks
  target
    | .create e | .update e => (e.ns,e.id)
    | .get ns id | .delete ns id => (ns,id)
  perform
    | .create e, s => settle s (s.createWebhookEndpoint e)
    | .get ns id, s => (reply .endpoint (s.getWebhookEndpoint ns id),s)
    | .update e, s => settle s (s.updateWebhookEndpoint e)
    | .delete ns id, s => settle s (s.deleteWebhookEndpoint ns id)
  keyed := by
    rintro (e | ⟨ns,id⟩ | e | ⟨ns,id⟩)
    · refine ⟨.create e .done (.failed (.of .alreadyExists)),rfl,fun s => ?_⟩
      simp only [Store.createWebhookEndpoint,Access.run,Access.create]
      cases s.webhooks.lookup e.key <;> exact ⟨rfl,rfl⟩
    · refine ⟨.read (defKey ns id 0) (.failed (.of .notFound)) .endpoint,rfl,fun s => ?_⟩
      simp only [Store.getWebhookEndpoint,Access.run,Access.read]
      cases s.webhooks.lookup (defKey ns id 0) <;> exact ⟨rfl,rfl⟩
    · refine ⟨.replace e (.failed (.of .notFound)) .done,rfl,fun s => ?_⟩
      simp only [Store.updateWebhookEndpoint,Access.run,Access.replace]
      cases s.webhooks.lookup e.key <;> exact ⟨rfl,rfl⟩
    · refine ⟨.remove (defKey ns id 0) (.failed (.of .notFound)) .done,rfl,fun s => ?_⟩
      simp only [Store.deleteWebhookEndpoint,Access.run,Access.remove]
      cases s.webhooks.lookup (defKey ns id 0) <;> exact ⟨rfl,rfl⟩
  told := by
    intro x y same _
    let row : WebhookEndpoint := { id := y.2, ns := y.1, url := "", active := true }
    refine ⟨.get x.1 x.2,{ Store.new with webhooks := Store.new.webhooks.insert row },.new,rfl,sameBut_single _ row,?_⟩
    have found : (Store.new.webhooks.insert row).lookup (defKey x.1 x.2 0) = some row := by
      rw [same]
      exact lookup_insert_self _ row
    simp only [reply,Store.getWebhookEndpoint,found]
    exact nofun

inductive DeliveryOp
  | create (d : Delivery)
  | update (d : Delivery)

def deliveries : Shelf where
  Row := Delivery
  Name := Namespace × String
  Operation := DeliveryOp
  name := fun d => (d.ns,d.id)
  text := fun x => defKey x.1 x.2 0
  key := Delivery.key
  filed := fun _ => rfl
  table := Store.deliveries
  target
    | .create d | .update d => (d.ns,d.id)
  perform
    | .create d, s => settle s (s.createDelivery d)
    | .update d, s => settle s (s.updateDelivery d)
  keyed := by
    rintro (d | d)
    · refine ⟨.create d .done (.failed (.of .alreadyExists)),rfl,fun s => ?_⟩
      simp only [Store.createDelivery,Access.run,Access.create]
      cases s.deliveries.lookup d.key <;> exact ⟨rfl,rfl⟩
    · refine ⟨.replace d (.failed (.of .notFound)) .done,rfl,fun s => ?_⟩
      simp only [Store.updateDelivery,Access.run,Access.replace]
      cases s.deliveries.lookup d.key <;> exact ⟨rfl,rfl⟩
  told := by
    intro x y same _
    let named : Namespace × String → Delivery := fun z =>
      { id := z.2, ns := z.1, eventID := "", endpointID := "", status := .queued }
    refine ⟨.update (named x),{ Store.new with deliveries := Store.new.deliveries.insert (named y) },.new,rfl,
      sameBut_single _ (named y),?_⟩
    have found : (Store.new.deliveries.insert (named y)).lookup (named x).key = some (named y) := by
      have filed : (named x).key = (named y).key := same
      rw [filed]
      exact lookup_insert_self _ (named y)
    simp only [settle,Store.updateDelivery,found]
    exact nofun

inductive TokenOp
  | create (t : APIToken)
  | get (ns : Namespace) (id : String)
  | delete (ns : Namespace) (id : String)

def tokens : Shelf where
  Row := APIToken
  Name := Namespace × String
  Operation := TokenOp
  name := fun t => (t.ns,t.id)
  text := fun x => defKey x.1 x.2 0
  key := APIToken.key
  filed := fun _ => rfl
  table := Store.tokens
  target
    | .create t => (t.ns,t.id)
    | .get ns id | .delete ns id => (ns,id)
  perform
    | .create t, s => settle s (s.createToken t)
    | .get ns id, s => (reply .token (s.getToken ns id),s)
    | .delete ns id, s => settle s (s.deleteToken ns id)
  keyed := by
    rintro (t | ⟨ns,id⟩ | ⟨ns,id⟩)
    · refine ⟨.create t .done (.failed (.of .alreadyExists)),rfl,fun s => ?_⟩
      simp only [Store.createToken,Access.run,Access.create]
      cases s.tokens.lookup t.key <;> exact ⟨rfl,rfl⟩
    · refine ⟨.read (defKey ns id 0) (.failed (.of .notFound)) .token,rfl,fun s => ?_⟩
      simp only [Store.getToken,Access.run,Access.read]
      cases s.tokens.lookup (defKey ns id 0) <;> exact ⟨rfl,rfl⟩
    · refine ⟨.remove (defKey ns id 0) (.failed (.of .notFound)) .done,rfl,fun s => ?_⟩
      simp only [Store.deleteToken,Access.run,Access.remove]
      cases s.tokens.lookup (defKey ns id 0) <;> exact ⟨rfl,rfl⟩
  told := by
    intro x y same _
    let row : APIToken := { id := y.2, ns := y.1, role := "", tokenHash := "" }
    refine ⟨.get x.1 x.2,{ Store.new with tokens := Store.new.tokens.insert row },.new,rfl,sameBut_single _ row,?_⟩
    have found : (Store.new.tokens.insert row).lookup (defKey x.1 x.2 0) = some row := by
      rw [same]
      exact lookup_insert_self _ row
    simp only [reply,Store.getToken,found]
    exact nofun

lemma itoa_at (i : Int) : '@' ∉ (itoa i).toList := by
  intro member
  rcases itoa_chars i '@' member with sign | digit
  · cases sign
  · revert digit
    decide

lemma defKey_eq_iff (ns ns' : Namespace) (name name' : String) (version version' : Int) :
    defKey ns name version = defKey ns' name' version' ↔
      ns ++ "/" ++ name = ns' ++ "/" ++ name' ∧ version = version' := by
  constructor
  · intro same
    obtain ⟨left,right⟩ := Text.join_injective "@" _ _ _ _ '@' rfl (itoa_at version) (itoa_at version') same
    exact ⟨left,itoa_injective right⟩
  · rintro ⟨left,rfl⟩
    rw [defKey,defKey,left]

/-- Two entries of a map are kept apart exactly if the texts that the store joins their
names to are different. -/
theorem isolated_iff (x y : Namespace × String) (item other : Namespace × String × String) (d e : WorkflowID) :
    (x ≠ y →
      (runs.Isolated x y ↔ x.1 ++ "/" ++ x.2 ≠ y.1 ++ "/" ++ y.2) ∧
      (webhooks.Isolated x y ↔ x.1 ++ "/" ++ x.2 ≠ y.1 ++ "/" ++ y.2) ∧
      (deliveries.Isolated x y ↔ x.1 ++ "/" ++ x.2 ≠ y.1 ++ "/" ++ y.2) ∧
      (tokens.Isolated x y ↔ x.1 ++ "/" ++ x.2 ≠ y.1 ++ "/" ++ y.2)) ∧
    (item ≠ other →
      (queue.Isolated item other ↔
        item.1 ++ "/" ++ item.2.1 ++ "/" ++ item.2.2 ≠ other.1 ++ "/" ++ other.2.1 ++ "/" ++ other.2.2)) ∧
    (d ≠ e → (definitions.Isolated d e ↔ d.ns ++ "/" ++ d.name ≠ e.ns ++ "/" ++ e.name ∨ d.version ≠ e.version)) := by
  have plain : defKey x.1 x.2 0 ≠ defKey y.1 y.2 0 ↔ x.1 ++ "/" ++ x.2 ≠ y.1 ++ "/" ++ y.2 := by
    rw [Ne,defKey_eq_iff]
    simp
  refine ⟨?_,queue.isolated_iff_text item other,?_⟩
  · intro distinct
    exact ⟨runs.isolated_iff_text x y distinct,(webhooks.isolated_iff_text x y distinct).trans plain,
      (deliveries.isolated_iff_text x y distinct).trans plain,(tokens.isolated_iff_text x y distinct).trans plain⟩
  · intro distinct
    refine (definitions.isolated_iff_text d e distinct).trans ?_
    change defKey d.ns d.name d.version ≠ defKey e.ns e.name e.version ↔ _
    rw [Ne,defKey_eq_iff,not_and_or]

theorem siblings_isolated :
    runs.Isolated ("a","b") ("a","c") ∧ queue.Isolated ("a","b","d") ("a","b","e") ∧
      definitions.Isolated ⟨"a","b",1⟩ ⟨"a","b",2⟩ := by
  obtain ⟨pairs,items,versions⟩ := isolated_iff ("a","b") ("a","c") ("a","b","d") ("a","b","e") ⟨"a","b",1⟩ ⟨"a","b",2⟩
  exact ⟨(pairs (by decide)).1.mpr (by decide),(items (by decide)).mpr (by decide),(versions (by decide)).mpr (by decide)⟩

/-- The run `b/c` of namespace `a` and the run `c` of namespace `a/b` are one entry, and
so are the queue items and the definitions of these names. -/
theorem slash_collides :
    ¬ runs.Isolated ("a","b/c") ("a/b","c") ∧
      ¬ queue.Isolated ("a","b/c","d") ("a/b","c","d") ∧
      ¬ definitions.Isolated ⟨"a","b/c",1⟩ ⟨"a/b","c",1⟩ := by
  refine ⟨?_,?_,?_⟩
  · have apart : (("a","b/c") : Namespace × String) ≠ ("a/b","c") := by decide
    exact runs.not_isolated apart (by decide)
  · have apart : (("a","b/c","d") : Namespace × String × String) ≠ ("a/b","c","d") := by decide
    exact queue.not_isolated apart (by decide)
  · have apart : (⟨"a","b/c",1⟩ : WorkflowID) ≠ ⟨"a/b","c",1⟩ := by decide
    exact definitions.not_isolated apart (by decide)

end Tempest.Keys
