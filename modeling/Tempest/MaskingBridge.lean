import Mathlib.Data.List.Sort
import Tempest.Lib.ByteText
import Tempest.Lib.Replacement

/-! The bridge that masks registered secrets in texts. The secrets are replaced one after
the other, the longest first, in a text that already has placeholders in it. A secret stays
out of every result exactly if it cannot be laid over the placeholder. -/
open List
namespace Tempest.MaskingBridge
open Replacement ByteText

abbrev Bytes := List UInt8

def bytes (text : String) : Bytes := text.toList.map (fun c => c.toNat.toUInt8)

def placeholder : Bytes := bytes "[REDACTED:SECRET]"

def minMaskingLength : Nat := 4

structure Bridge where
  knownSecrets : List Bytes
  sortedPatterns : List Bytes
  dirty : Bool

/-- An order of the secrets in which no shorter one comes before a longer one. -/
structure LongestFirst where
  arrange : List Bytes → List Bytes
  perm : ∀ secrets, (arrange secrets).Perm secrets
  descending : ∀ secrets, (arrange secrets).Pairwise (fun a b => b.length ≤ a.length)

namespace Bridge

def new : Bridge := ⟨[],[],false⟩

def registerSecret (b : Bridge) (val : Bytes) : Bridge :=
  let str := trimSpace val
  if str.length < minMaskingLength then b
  else if str ∈ b.knownSecrets then b
  else { b with knownSecrets := b.knownSecrets ++ [str], dirty := true }

def rebuildPatternsLocked (b : Bridge) (order : LongestFirst) : Bridge :=
  if b.dirty then { b with sortedPatterns := order.arrange b.knownSecrets, dirty := false } else b

def replaced (res secret : Bytes) : Bytes :=
  if secret <:+: res then replaceAll secret placeholder res else res

def maskText (b : Bridge) (order : LongestFirst) (input : Bytes) : Bytes × Bridge :=
  if input = [] then ([],b)
  else
    let b := b.rebuildPatternsLocked order
    (b.sortedPatterns.foldl replaced input,b)

end Bridge

inductive Call where
  | registerSecret (val : Bytes)
  | maskText (order : LongestFirst) (input : Bytes)

def step (b : Bridge) : Call → Bridge
  | .registerSecret val => b.registerSecret val
  | .maskText order input => (b.maskText order input).2

def run (calls : List Call) : Bridge := calls.foldl step .new

def NeverShown (secret : Bytes) : Prop :=
  ∀ calls order input, secret ∈ (run calls).knownSecrets → ¬secret <:+: ((run calls).maskText order input).1

structure Tidy (b : Bridge) : Prop where
  long : ∀ secret ∈ b.knownSecrets, minMaskingLength ≤ secret.length
  current : b.dirty = false → b.sortedPatterns.Perm b.knownSecrets

section tidy

variable {b : Bridge}

lemma Tidy.registerSecret (tidy : Tidy b) (val : Bytes) : Tidy (b.registerSecret val) := by
  unfold Bridge.registerSecret
  dsimp only
  split_ifs with short known
  · exact tidy
  · exact tidy
  · refine ⟨?_,fun clean => by simp at clean⟩
    intro secret listed
    rcases mem_append.mp listed with before | last
    · exact tidy.long secret before
    · rw [mem_singleton.mp last]
      omega

lemma Tidy.rebuildPatternsLocked (tidy : Tidy b) (order : LongestFirst) :
    Tidy (b.rebuildPatternsLocked order) ∧ (b.rebuildPatternsLocked order).knownSecrets = b.knownSecrets ∧
      (b.rebuildPatternsLocked order).sortedPatterns.Perm b.knownSecrets := by
  unfold Bridge.rebuildPatternsLocked
  split_ifs with dirty
  · exact ⟨⟨tidy.long,fun _ => order.perm _⟩,rfl,order.perm _⟩
  · exact ⟨tidy,rfl,tidy.current (by simpa using dirty)⟩

lemma Tidy.step (tidy : Tidy b) (call : Call) : Tidy (step b call) := by
  cases call with
  | registerSecret val => exact tidy.registerSecret val
  | maskText order input =>
    simp only [MaskingBridge.step,Bridge.maskText]
    split_ifs
    · exact tidy
    · exact (tidy.rebuildPatternsLocked order).1

lemma run_tidy (calls : List Call) : Tidy (run calls) :=
  List.foldlRecOn calls step ⟨by simp [Bridge.new],fun _ => .refl _⟩ (fun _ tidy call _ => tidy.step call)

end tidy

section replaced

variable {secret : Bytes}

lemma ne_nil_of_long (long : minMaskingLength ≤ secret.length) : secret ≠ [] := by
  rintro rfl
  simp [minMaskingLength] at long

lemma infix_of_replaced {res other : Bytes} (long : secret ≠ []) (long' : other ≠ []) (apart : ¬Overlaps secret placeholder)
    (inside : secret <:+: Bridge.replaced res other) : secret ≠ other ∧ secret <:+: res := by
  unfold Bridge.replaced at inside
  split_ifs at inside with there
  · exact infix_of_replaceAll long (by decide) long' apart inside
  · exact ⟨fun same => there (same ▸ inside),inside⟩

lemma not_infix_replaced {patterns : List Bytes} (apart : ¬Overlaps secret placeholder)
    (proper : ∀ pattern ∈ patterns,pattern ≠ []) (proper' : secret ≠ []) (res : Bytes)
    (gone : secret ∈ patterns ∨ ¬secret <:+: res) : ¬secret <:+: patterns.foldl Bridge.replaced res := by
  induction patterns generalizing res with
  | nil => simpa using gone
  | cons first patterns ih =>
    apply ih (fun pattern listed => proper pattern (mem_cons_of_mem _ listed))
    by_cases later : secret ∈ patterns
    · exact .inl later
    · right
      intro inside
      obtain ⟨other,before⟩ := infix_of_replaced proper' (proper first mem_cons_self) apart inside
      rcases gone with listed | absent
      · rcases mem_cons.mp listed with same | later'
        · exact other same
        · exact later later'
      · exact absent before

lemma neverShown_of_apart (apart : ¬Overlaps secret placeholder) : NeverShown secret := by
  intro calls order input known
  have tidy := run_tidy calls
  have proper := ne_nil_of_long (tidy.long secret known)
  unfold Bridge.maskText
  split_ifs
  · simpa using proper
  · obtain ⟨-,-,perm⟩ := tidy.rebuildPatternsLocked order
    apply not_infix_replaced apart _ proper _ (.inl (perm.mem_iff.mpr known))
    exact fun pattern listed => ne_nil_of_long (tidy.long pattern (perm.mem_iff.mp listed))

end replaced

section shown

def letter (avoid : Option UInt8) : UInt8 := if avoid = some 97 then 98 else 97

variable (avoid : Option UInt8)

lemma letter_ne : avoid ≠ some (letter avoid) := by
  unfold letter
  split_ifs with same
  · simp [same]
  · exact same

lemma letter_cases : letter avoid = 97 ∨ letter avoid = 98 := by
  unfold letter
  split_ifs <;> simp

lemma letter_not_mem : letter avoid ∉ placeholder := by
  rcases letter_cases avoid with same | same <;> rw [same] <;> decide

lemma trimSpace_letter (n : Nat) :
    trimSpace (List.replicate (n + 1) (letter avoid)) = List.replicate (n + 1) (letter avoid) := by
  have visible : Visible (letter avoid) := by
    rcases letter_cases avoid with same | same <;> rw [same] <;> decide
  have last : (List.replicate (n + 1) (letter avoid)).getLast? = some (letter avoid) := by
    rw [getLast?_replicate,if_neg (by omega)]
  exact trimSpace_visible rfl visible last visible

instance : Std.Total (fun a b : Bytes => b.length ≤ a.length) := ⟨fun a b => Nat.le_total b.length a.length⟩

instance : IsTrans Bytes (fun a b => b.length ≤ a.length) := ⟨fun _ _ _ first second => Nat.le_trans second first⟩

def insertionOrder : LongestFirst where
  arrange := List.insertionSort (fun a b => b.length ≤ a.length)
  perm := List.perm_insertionSort _
  descending := List.pairwise_insertionSort _

lemma replaced_decoy {before after : Bytes} {n : Nat} (short : before.length < n) (short' : after.length < n) :
    let decoy := List.replicate n (letter before.getLast?)
    Bridge.replaced (before ++ (decoy ++ after)) decoy = before ++ (placeholder ++ after) := by
  intro decoy
  have proper : decoy ≠ [] := by
    intro none
    have size : decoy.length = n := length_replicate
    rw [none,length_nil] at size
    omega
  have there : decoy <:+: before ++ (decoy ++ after) := ⟨before,after,by simp⟩
  have rest : ¬decoy <:+: after := by
    intro inside
    have size := inside.length_le
    simp only [decoy,length_replicate] at size
    omega
  rw [Bridge.replaced,if_pos there,replaceAll_first proper,replaceAll_absent rest]
  intro tail full ends begins
  -- the whole tail would be copies of the letter, its last element too
  have size := ends.length_le
  have copies :=
    prefix_of_prefix_length_le (prefix_append _ _) begins (by simp only [decoy,length_replicate]; omega)
  have last : before.getLast? = some (tail.getLast full) := by
    obtain ⟨front,rfl⟩ := ends
    rw [getLast?_append_of_ne_nil _ full,getLast?_eq_some_getLast full]
  have same := eq_of_mem_replicate (copies.subset (getLast_mem full))
  exact letter_ne before.getLast? (last.trans (congrArg some same))

lemma run_registers {val secret decoy : Bytes} (trimmed : trimSpace val = secret) (long : minMaskingLength ≤ secret.length)
    (trimmed' : trimSpace decoy = decoy) (long' : minMaskingLength ≤ decoy.length) (apart : decoy ≠ secret) :
    run [.registerSecret val,.registerSecret decoy] = ⟨[secret,decoy],[],true⟩ := by
  simp [run,step,Bridge.registerSecret,Bridge.new,trimmed,trimmed',Nat.not_lt.mpr long,Nat.not_lt.mpr long',apart]

lemma shown_of_overlaps {val secret : Bytes} (trimmed : trimSpace val = secret) (long : minMaskingLength ≤ secret.length)
    (covered : Overlaps secret placeholder) : ¬NeverShown secret := by
  intro never
  obtain ⟨before,shared,after,before',after',full,whole,cover,left,right⟩ := covered
  obtain ⟨first,rest,rfl⟩ := exists_cons_of_ne_nil full
  have size : secret.length = before.length + (rest.length + 1) + after.length := by
    rw [whole,length_append,length_append,length_cons]
  let decoy := List.replicate secret.length (letter before.getLast?)
  have visible : first ≠ letter before.getLast? := by
    intro same
    apply letter_not_mem before.getLast?
    rw [cover,← same]
    simp
  have absent : ¬secret <:+: before ++ (decoy ++ after) := by
    have placed : ¬secret <:+: before ++ decoy ++ after := by
      simp only [decoy,whole]
      exact not_infix_of_ends rfl visible
    rwa [append_assoc] at placed
  have apart : decoy ≠ secret := by
    intro same
    exact absent (same ▸ ⟨before,after,by simp⟩)
  have trimmed' : trimSpace decoy = decoy := by
    obtain ⟨n,length⟩ : ∃ n,secret.length = n + 1 := ⟨before.length + rest.length + after.length,by omega⟩
    simp only [decoy,length]
    exact trimSpace_letter _ n
  have started := run_registers trimmed long trimmed' (by simpa [decoy] using long) apart
  have sorted : insertionOrder.arrange [secret,decoy] = [secret,decoy] := by
    simp [insertionOrder,decoy]
  have result : ((run [.registerSecret val,.registerSecret decoy]).maskText insertionOrder (before ++ (decoy ++ after))).1 =
      before ++ (placeholder ++ after) := by
    have some : before ++ (decoy ++ after) ≠ [] := by
      intro none
      have lengths := congrArg List.length none
      simp only [decoy,length_append,length_replicate,length_nil] at lengths
      omega
    rw [started,Bridge.maskText,if_neg some]
    simp only [Bridge.rebuildPatternsLocked,if_true,sorted,foldl_cons,foldl_nil]
    rw [Bridge.replaced.eq_def _ secret,if_neg absent]
    exact replaced_decoy (by omega) (by omega)
  apply never [.registerSecret val,.registerSecret decoy] insertionOrder (before ++ (decoy ++ after))
  · rw [started]
    exact mem_cons_self
  · rw [result,whole,← append_assoc,cover]
    exact infix_of_ends left right

/-- A secret that is accepted stays out of every later result exactly if it cannot be laid
over the placeholder. -/
theorem neverShown_iff_not_overlaps {val secret : Bytes} (trimmed : trimSpace val = secret)
    (long : minMaskingLength ≤ secret.length) : NeverShown secret ↔ ¬Overlaps secret placeholder := by
  constructor
  · intro never covered
    exact shown_of_overlaps trimmed long covered never
  · exact neverShown_of_apart

theorem neverShown_hunter : NeverShown (bytes "hunter2") := by
  have trimmed : trimSpace (bytes " hunter2\n") = bytes "hunter2" := by decide
  rw [neverShown_iff_not_overlaps trimmed (by decide)]
  rintro ⟨before,shared,after,before',after',full,whole,cover,-⟩
  obtain ⟨first,rest,rfl⟩ := exists_cons_of_ne_nil full
  have common : (bytes "hunter2").all (fun b => b ∉ placeholder) = true := by decide
  have apart := all_eq_true.mp common first (by rw [whole]; simp)
  exact of_decide_eq_true apart (by rw [cover]; simp)

/-- The placeholder itself shows the secret. -/
theorem secret_shown : ¬NeverShown (bytes "SECRET") := by
  intro never
  have known : bytes "SECRET" ∈ (run [.registerSecret (bytes "SECRET")]).knownSecrets := by decide
  exact never _ insertionOrder (bytes "SECRET") known (by decide)

end shown

end Tempest.MaskingBridge
