import Tempest.Fencing
import Tempest.Lib.Counter

/-! The token generator of `internal/fencing`. The map of the numbers and the map of
the epochs are read with the zero default of an absent entry. Next to the generator
stands what its calls have returned, the latest first. -/
namespace Tempest.Fencing
open Interaction Counter Function

structure TokenGenerator where
  lastToken : String → UInt64 := fun _ => 0
  epochs : String → UInt64 := fun _ => 0
  activeTokens : String → Option FencingToken := fun _ => none

def lifetime (ttl : Duration) : Duration := if ttl ≤ 0 then 30 * second else ttl

namespace TokenGenerator

def draw (g : TokenGenerator) (resource owner : String) (ttl : Duration) (now : Time) : FencingToken where
  resource := resource
  token := g.lastToken resource + 1
  owner := owner
  epoch := if g.lastToken resource + 1 = 1 then 1 else g.epochs resource
  issuedAt := now
  expiresAt := now + lifetime ttl

def acquireToken (g : TokenGenerator) (resource owner : String) (ttl : Duration) (now : Time) :
    FencingToken × TokenGenerator :=
  let token := g.draw resource owner ttl now
  (token,{
    lastToken := Function.update g.lastToken resource token.token
    epochs := if token.token = 1 then Function.update g.epochs resource 1 else g.epochs
    activeTokens := Function.update g.activeTokens resource (some token) })

def nextEpoch (g : TokenGenerator) (resource : String) : UInt64 × TokenGenerator :=
  (g.epochs resource + 1,{ g with epochs := Function.update g.epochs resource (g.epochs resource + 1) })

def latestToken (g : TokenGenerator) (resource : String) : Option FencingToken := g.activeTokens resource

def currentTokenNumber (g : TokenGenerator) (resource : String) : UInt64 := g.lastToken resource

end TokenGenerator

/-- A call of a generator. -/
inductive Call
  | acquire (resource owner : String) (ttl : Duration)
  | advance (resource : String)
  deriving DecidableEq

inductive Answer
  | token (t : FencingToken)
  | epoch (resource : String) (value : UInt64)
  deriving DecidableEq

def TokenGenerator.perform (g : TokenGenerator) (now : Time) : Call → Answer × TokenGenerator
  | .acquire resource owner ttl =>
    let issued := g.acquireToken resource owner ttl now
    (.token issued.1,issued.2)
  | .advance resource =>
    let begun := g.nextEpoch resource
    (.epoch resource begun.1,begun.2)

structure Ledger where
  generator : TokenGenerator := {}
  answers : List Answer := []

variable (clock : Nat → Time)

def Ledger.step (l : Ledger) (call : Call) : Ledger :=
  let performed := l.generator.perform (clock l.answers.length) call
  ⟨performed.2,performed.1 :: l.answers⟩

def lastEpoch (resource : String) : List Answer → UInt64
  | [] => 0
  | .token _ :: earlier => lastEpoch resource earlier
  | .epoch r value :: earlier => if r = resource then value else lastEpoch resource earlier

def Precedes (u t : FencingToken) : Prop := u.epoch < t.epoch ∨ u.epoch = t.epoch ∧ u.token < t.token

/-- Each issued token is beyond all earlier ones of its resource, in its number and in
its pair of epoch and number, and not below the last epoch that was begun. -/
def Forward : List Answer → Prop
  | [] => True
  | .token t :: earlier =>
    ((∀ u, .token u ∈ earlier → u.resource = t.resource → Precedes u t ∧ u.token < t.token) ∧
      lastEpoch t.resource earlier ≤ t.epoch) ∧ Forward earlier
  | .epoch _ _ :: earlier => Forward earlier

/-- A token is acquired only while the number of the resource does not wrap around,
with at most one epoch before the first token, and with an epoch that is not below that
of the latest token. -/
def Fits (g : TokenGenerator) : Call → Prop
  | .acquire resource _ _ =>
    g.lastToken resource + 1 ≠ 0 ∧ (g.lastToken resource = 0 → g.epochs resource ≤ 1) ∧
      ∀ t, g.activeTokens resource = some t → t.epoch ≤ g.epochs resource
  | .advance _ => True

/-- The latest token of a resource is its greatest one and carries the last number, and
the epoch of a resource is not below the last one that was begun. -/
structure Tied (l : Ledger) : Prop where
  forward : Forward l.answers
  greatest : ∀ u, .token u ∈ l.answers →
    ∃ t, l.generator.activeTokens u.resource = some t ∧ u.epoch ≤ t.epoch ∧ u.token ≤ t.token
  listed : ∀ r t, l.generator.activeTokens r = some t → .token t ∈ l.answers ∧ t.resource = r ∧
    t.token = l.generator.lastToken r ∧ l.generator.lastToken r ≠ 0
  unissued : ∀ r, l.generator.activeTokens r = none → l.generator.lastToken r = 0
  epoch : ∀ r, lastEpoch r l.answers ≤ l.generator.epochs r
  begun : ∀ r, l.generator.lastToken r = 0 → lastEpoch r l.answers = l.generator.epochs r

lemma precedes_iff {u t : FencingToken} (lower : u.token < t.token) : Precedes u t ↔ u.epoch ≤ t.epoch := by
  rw [UInt64.le_iff_lt_or_eq]
  exact or_congr_right (and_iff_left lower)

section

variable {clock} {l : Ledger} {resource owner : String} {ttl : Duration} {now : Time} (g : TokenGenerator)

lemma draw_epoch : (g.draw resource owner ttl now).epoch =
    if g.lastToken resource = 0 then 1 else g.epochs resource := by
  simp only [TokenGenerator.draw,next_eq_one]

lemma Tied.after (tied : Tied l) (fits : Fits l.generator (.acquire resource owner ttl)) (u : FencingToken)
    (issued : .token u ∈ l.answers) (same : u.resource = resource) :
    u.epoch ≤ (l.generator.draw resource owner ttl now).epoch ∧
      u.token < (l.generator.draw resource owner ttl now).token := by
  obtain ⟨nowrap,-,later⟩ := fits
  obtain ⟨t,active,epoch,number⟩ := tied.greatest u issued
  rw [same] at active
  obtain ⟨-,-,last,positive⟩ := tied.listed resource t active
  rw [draw_epoch,if_neg positive]
  refine ⟨UInt64.le_trans epoch (later t active),?_⟩
  rw [last] at number
  exact UInt64.lt_of_le_of_lt number (lt_next nowrap)

lemma Tied.not_below (tied : Tied l) (fits : Fits l.generator (.acquire resource owner ttl)) :
    lastEpoch resource l.answers ≤ (l.generator.draw resource owner ttl now).epoch := by
  rw [draw_epoch]
  split_ifs with first
  · rw [tied.begun resource first]
    exact fits.2.1 first
  · exact tied.epoch resource

lemma Tied.fits (tied : Tied l) (forward : Forward (.token (l.generator.draw resource owner ttl now) :: l.answers)) :
    Fits l.generator (.acquire resource owner ttl) := by
  obtain ⟨⟨beyond,above⟩,-⟩ := forward
  refine ⟨?_,?_,?_⟩
  · intro wrapped
    cases active : l.generator.activeTokens resource with
    | none =>
      rw [tied.unissued resource active] at wrapped
      cases wrapped
    | some t =>
      obtain ⟨issued,same,last,-⟩ := tied.listed resource t active
      have higher : t.token < l.generator.lastToken resource + 1 := (beyond t issued same).2
      rw [wrapped] at higher
      exact UInt64.not_lt_zero higher
  · intro first
    rw [← tied.begun resource first]
    rw [draw_epoch,if_pos first] at above
    exact above
  · intro t active
    obtain ⟨issued,same,-,positive⟩ := tied.listed resource t active
    obtain ⟨precedes,higher⟩ := beyond t issued same
    have epoch := (precedes_iff higher).mp precedes
    rw [draw_epoch,if_neg positive] at epoch
    exact epoch

lemma forward_step (tied : Tied l) (call : Call) :
    Forward (l.step clock call).answers ↔ Fits l.generator call := by
  cases call with
  | acquire resource owner ttl =>
    constructor
    · exact tied.fits
    · intro fits
      refine ⟨⟨?_,tied.not_below fits⟩,tied.forward⟩
      intro u issued same
      obtain ⟨epoch,number⟩ := tied.after fits u issued same
      exact ⟨(precedes_iff number).mpr epoch,number⟩
  | advance resource => exact ⟨fun _ => trivial,fun _ => tied.forward⟩

lemma acquire_lastToken (r : String) : (g.acquireToken resource owner ttl now).2.lastToken r =
      if r = resource then g.lastToken resource + 1 else g.lastToken r := update_apply _ _ _ _

lemma acquire_activeTokens (r : String) : (g.acquireToken resource owner ttl now).2.activeTokens r =
      if r = resource then some (g.draw resource owner ttl now) else g.activeTokens r := update_apply _ _ _ _

lemma acquire_epochs (r : String) : (g.acquireToken resource owner ttl now).2.epochs r =
      if r = resource then (g.draw resource owner ttl now).epoch else g.epochs r := by
  simp only [TokenGenerator.acquireToken,TokenGenerator.draw,next_eq_one]
  by_cases first : g.lastToken resource = 0
  · rw [if_pos first,if_pos first]
    exact update_apply _ _ _ _
  · rw [if_neg first]
    split_ifs with same
    · rw [same]
    · rfl

lemma tied_acquire (tied : Tied l) (fits : Fits l.generator (.acquire resource owner ttl)) :
    Tied (l.step clock (.acquire resource owner ttl)) := by
  refine ⟨(forward_step tied _).mpr fits,?_,?_,?_,?_,?_⟩
  · intro u issued
    rcases List.mem_cons.mp issued with itself | earlier
    · cases itself
      exact ⟨_,(acquire_activeTokens ..).trans (if_pos rfl),UInt64.le_refl _,UInt64.le_refl _⟩
    · by_cases same : u.resource = resource
      · obtain ⟨epoch,number⟩ := tied.after fits u earlier same
        exact ⟨_,(acquire_activeTokens ..).trans (if_pos same),epoch,UInt64.le_of_lt number⟩
      · obtain ⟨t,active,bounds⟩ := tied.greatest u earlier
        exact ⟨t,(acquire_activeTokens ..).trans ((if_neg same).trans active),bounds⟩
  · intro r t active
    rw [Ledger.step,TokenGenerator.perform,acquire_activeTokens] at active
    rw [Ledger.step,TokenGenerator.perform,acquire_lastToken]
    split_ifs at active ⊢ with same
    · cases active
      exact ⟨List.mem_cons_self,same.symm,rfl,fits.1⟩
    · obtain ⟨issued,rest⟩ := tied.listed r t active
      exact ⟨List.mem_cons_of_mem _ issued,rest⟩
  · intro r active
    rw [Ledger.step,TokenGenerator.perform,acquire_activeTokens] at active
    rw [Ledger.step,TokenGenerator.perform,acquire_lastToken]
    split_ifs at active ⊢ with same
    exact tied.unissued r active
  · intro r
    rw [Ledger.step,TokenGenerator.perform,acquire_epochs]
    split_ifs with same
    · rw [same]
      exact tied.not_below fits
    · exact tied.epoch r
  · intro r first
    rw [Ledger.step,TokenGenerator.perform,acquire_lastToken] at first
    rw [Ledger.step,TokenGenerator.perform,acquire_epochs]
    split_ifs at first ⊢ with same
    · exact absurd first fits.1
    · exact tied.begun r first

lemma advance_epoch (r : String) : let after := l.step clock (.advance resource)
    r = resource ∧ lastEpoch r after.answers = after.generator.epochs r ∨
      lastEpoch r after.answers = lastEpoch r l.answers ∧ after.generator.epochs r = l.generator.epochs r := by
  intro after
  by_cases same : r = resource
  · cases same
    refine .inl ⟨rfl,(if_pos rfl).trans ?_⟩
    exact (update_self resource _ l.generator.epochs).symm
  · exact .inr ⟨if_neg (Ne.symm same),update_of_ne same ..⟩

lemma tied_advance (tied : Tied l) : Tied (l.step clock (.advance resource)) := by
  have issued : ∀ t,.token t ∈ (l.step clock (.advance resource)).answers ↔ .token t ∈ l.answers := by
    intro t
    exact List.mem_cons.trans (or_iff_right (fun same => by cases same))
  refine ⟨tied.forward,?_,?_,tied.unissued,?_,?_⟩
  · intro u member
    exact tied.greatest u ((issued u).mp member)
  · intro r t active
    obtain ⟨member,rest⟩ := tied.listed r t active
    exact ⟨(issued t).mpr member,rest⟩
  · intro r
    rcases advance_epoch r with ⟨_,same⟩ | ⟨last,epoch⟩
    · exact UInt64.le_of_eq same
    · rw [last,epoch]
      exact tied.epoch r
  · intro r first
    rcases advance_epoch r with ⟨_,same⟩ | ⟨last,epoch⟩
    · exact same
    · rw [last,epoch]
      exact tied.begun r first

end

lemma tied_step {l : Ledger} (tied : Tied l) (call : Call) (fits : Fits l.generator call) :
    Tied (l.step clock call) := by
  cases call with
  | acquire resource owner ttl => exact tied_acquire tied fits
  | advance resource => exact tied_advance tied

lemma forward_earlier (l : Ledger) (call : Call) (forward : Forward (l.step clock call).answers) :
    Forward l.answers := by
  cases call with
  | acquire resource owner ttl => exact forward.2
  | advance resource => exact forward

lemma tied_fresh : Tied {} := by
  refine ⟨trivial,?_,?_,fun _ _ => rfl,fun _ => UInt64.le_refl _,fun _ _ => rfl⟩
  · intro u member
    cases member
  · intro r t active
    cases active

/-- Over any sequence of calls, with any clock, the issued tokens only move forward
exactly if every call fits the state in which it is made. -/
theorem tokens_forward_iff (calls : List Call) :
    Forward (calls.foldl (Ledger.step clock) {}).answers ↔
      Along (Ledger.step clock) (fun l call => Fits l.generator call) {} calls := by
  have start : Forward ({} : Ledger).answers := trivial
  apply (final_iff_along (P := fun l : Ledger => Forward l.answers) (forward_earlier clock) start).trans
  apply Along.congr (P := Tied)
  · intro l call tied fits
    exact tied_step clock tied call fits
  · intro l call tied
    exact forward_step tied call
  · exact tied_fresh

/-- Two epochs are begun before the first token, which then starts over with epoch 1. -/
theorem epoch_starts_over : ¬ Forward (([.advance "r",.advance "r",.acquire "r" "w" 0] : List Call).foldl
    (Ledger.step (fun _ => 0)) {}).answers := by
  intro forward
  exact absurd forward.1.2 (by decide)

end Tempest.Fencing
