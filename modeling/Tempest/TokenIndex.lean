import Tempest.Memstore
import Tempest.Lib.Interaction

/-! The index of the API tokens by their hash next to the table of the tokens. The index
has one place for each hash; creating a token takes the place over, and deleting a
token empties it, whichever token the place was for. -/
namespace Tempest.TokenIndex
open Interaction Filing

inductive Op
  | createToken (t : APIToken)
  | deleteToken (ns : Namespace) (id : String)

def step (s : Store) : Op → Store
  | .createToken t => s.settled (s.createToken t)
  | .deleteToken ns id => s.settled (s.deleteToken ns id)

def Agrees (s : Store) : Prop :=
  ∀ h, h ≠ "" →
    ((∃ t, s.lookupTokenByHash h = .ok t) ↔ ∃ t ∈ s.tokens.rows, t.tokenHash = h) ∧
    ∀ t, s.lookupTokenByHash h = .ok t → t ∈ s.tokens.rows ∧ t.tokenHash = h

def Alone (s : Store) : Op → Prop
  | .deleteToken ns id => ∀ t, s.tokens.lookup (defKey ns id 0) = some t → t.tokenHash ≠ "" →
    ∀ o ∈ s.tokens.rows, o.tokenHash = t.tokenHash → o = t
  | .createToken _ => True

lemma lookupTokenByHash_ok (s : Store) (h : String) (t : APIToken) :
    s.lookupTokenByHash h = .ok t ↔ s.tokenHash.lookup h = some t := by
  unfold Store.lookupTokenByHash
  cases s.tokenHash.lookup h with
  | none | some found => simp

lemma agrees_iff (s : Store) : Agrees s ↔ (∀ h t, h ≠ "" → s.tokenHash.lookup h = some t → t ∈ s.tokens.rows) ∧
      ∀ t ∈ s.tokens.rows, t.tokenHash ≠ "" → s.tokenHash.lookup t.tokenHash ≠ none := by
  unfold Agrees
  simp only [lookupTokenByHash_ok]
  constructor
  · intro agrees
    constructor
    · intro h t proper found
      exact ((agrees h proper).2 t found).1
    · intro t stored proper
      obtain ⟨o,found⟩ := (agrees t.tokenHash proper).1.mpr ⟨t,stored,rfl⟩
      simp [found]
  · rintro ⟨sound,complete⟩ h proper
    have leads : ∀ t,s.tokenHash.lookup h = some t → t ∈ s.tokens.rows ∧ t.tokenHash = h := by
      intro t found
      exact ⟨sound h t proper found,s.tokenHash.lookup_key found⟩
    refine ⟨⟨?_,?_⟩,leads⟩
    · rintro ⟨t,found⟩
      exact ⟨t,leads t found⟩
    · rintro ⟨t,stored,rfl⟩
      exact Option.ne_none_iff_exists'.mp (complete t stored proper)

lemma Agrees.createToken {s : Store} (agrees : Agrees s) (t : APIToken) : Agrees (step s (.createToken t)) := by
  obtain ⟨sound,complete⟩ := (agrees_iff s).mp agrees
  simp only [step,Store.createToken]
  cases free : s.tokens.lookup t.key with
  | some old => exact agrees
  | none =>
    have others := (s.tokens.lookup_eq_none t.key).mp free
    have index : ∀ h, h ≠ "" →
        (if t.tokenHash ≠ "" then s.tokenHash.insert t else s.tokenHash).lookup h =
          if h = t.tokenHash then some t else s.tokenHash.lookup h := by
      intro h proper
      by_cases hashed : t.tokenHash = ""
      · have other : h ≠ t.tokenHash := fun same => proper (same.trans hashed)
        rw [if_neg (not_not.mpr hashed),if_neg other]
      · rw [if_pos hashed,Table.lookup_insert]
    apply (agrees_iff _).mpr
    dsimp only [Store.settled]
    constructor
    · intro h o proper found
      rw [index h proper] at found
      rw [Table.mem_insert]
      split_ifs at found
      · cases found
        exact .inl rfl
      · have stored := sound h o proper found
        exact .inr ⟨stored,others o stored⟩
    · intro o stored proper
      rw [index o.tokenHash proper]
      split_ifs with same
      · simp
      · rcases (Table.mem_insert _ _ _).mp stored with rfl | ⟨old,_⟩
        · exact absurd rfl same
        · exact complete o old proper

lemma Agrees.deleteToken_iff {s : Store} (agrees : Agrees s) (ns : Namespace) (id : String) :
    Agrees (step s (.deleteToken ns id)) ↔ Alone s (.deleteToken ns id) := by
  obtain ⟨sound,complete⟩ := (agrees_iff s).mp agrees
  simp only [step,Alone,Store.deleteToken]
  cases found : s.tokens.lookup (defKey ns id 0) with
  | none =>
    apply iff_of_true agrees
    intro t missing
    cases missing
  | some t =>
    have filed := s.tokens.lookup_key found
    have index : ∀ h, h ≠ "" →
        (if t.tokenHash ≠ "" then s.tokenHash.erase t.tokenHash else s.tokenHash).lookup h =
          if h = t.tokenHash then none else s.tokenHash.lookup h := by
      intro h proper
      by_cases hashed : t.tokenHash = ""
      · have other : h ≠ t.tokenHash := fun same => proper (same.trans hashed)
        rw [if_neg (not_not.mpr hashed),if_neg other]
      · rw [if_pos hashed,Table.lookup_erase]
    apply (agrees_iff _).trans
    dsimp only [Store.settled]
    constructor
    · rintro ⟨_,complete'⟩ t' same proper o stored shared
      cases same
      by_contra different
      have kept : o ∈ (s.tokens.erase (defKey ns id 0)).rows := by
        rw [Table.mem_erase,← filed]
        refine ⟨stored,?_⟩
        intro key
        exact different (s.tokens.key_injective stored (s.tokens.lookup_mem found) key)
      have place := complete' o kept (shared ▸ proper)
      rw [index o.tokenHash (shared ▸ proper),if_pos shared] at place
      exact place rfl
    · intro alone
      constructor
      · intro h o proper led
        rw [index h proper] at led
        split_ifs at led with other
        rw [Table.mem_erase,← filed]
        refine ⟨sound h o proper led,?_⟩
        intro key
        have same := s.tokens.key_injective (sound h o proper led) (s.tokens.lookup_mem found) key
        rw [← same,s.tokenHash.lookup_key led] at other
        exact other rfl
      · intro o stored proper
        obtain ⟨old,key⟩ := (Table.mem_erase _ _ _).mp stored
        rw [index o.tokenHash proper,if_neg]
        · exact complete o old proper
        · intro shared
          apply key
          rw [alone t rfl (shared ▸ proper) o old shared]
          exact filed

lemma Agrees.step_iff {s : Store} (agrees : Agrees s) (op : Op) : Agrees (step s op) ↔ Alone s op := by
  cases op with
  | createToken t => exact iff_of_true (agrees.createToken t) trivial
  | deleteToken ns id => exact agrees.deleteToken_iff ns id

/-- Index and table agree in every state of a history exactly if no token is deleted
while another one has the same hash. -/
theorem index_agrees_iff (ops : List Op) : Throughout step Agrees .new ops ↔ Along step Alone .new ops := by
  have start : Agrees .new := (agrees_iff _).mpr (by simp [Store.new,Table.empty,Table.lookup])
  rw [throughout_iff_along start]
  apply Along.congr (P := Agrees) _ _ start
  · intro s op agrees alone
    exact (agrees.step_iff op).mpr alone
  · intro s op agrees
    exact agrees.step_iff op

def tokenA : APIToken := { id := "a", ns := "ns", role := "admin", tokenHash := "hash" }
def tokenB : APIToken := { tokenA with id := "b" }

/-- The second token is still there, but its hash is no longer found. -/
theorem shared_hash_lost : ¬ Throughout step Agrees .new [.createToken tokenA,.createToken tokenB,.deleteToken "ns" "a"] := by
  intro holds
  have agrees := (holds _ List.prefix_rfl "hash" (by decide)).1
  obtain ⟨t,found⟩ := agrees.mpr ⟨tokenB,by decide,rfl⟩
  cases found

end Tempest.TokenIndex
