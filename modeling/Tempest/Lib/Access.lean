import Tempest.Lib.Filing

/-! Operations on a table that look at one key only: the answer and what becomes of
the entry follow from the entry that was there. Callers go by names, and the key
of an entry is computed from its name; as long as two names have different keys,
an operation on one leaves the entry of the other alone and does not depend on it. -/
namespace Filing.Table

variable {K V N ρ : Type} {key : V → K} [DecidableEq K]

inductive Change (V : Type)
  | keep
  | put (row : V)
  | drop

def change (t : Table key) (k : K) : Change V → Table key
  | .keep => t
  | .put row => t.insert row
  | .drop => t.erase k

structure Access (key : V → K) (ρ : Type) where
  target : K
  effect : Option V → ρ × Change V
  keeps : ∀ old row, (∀ o ∈ old, key o = target) → (effect old).2 = .put row → key row = target

def Access.run (a : Access key ρ) (t : Table key) : ρ × Table key :=
  ((a.effect (t.lookup a.target)).1,t.change a.target (a.effect (t.lookup a.target)).2)

namespace Access

def create (row : V) (done taken : ρ) : Access key ρ where
  target := key row
  effect
    | none => (done,.put row)
    | some _ => (taken,.keep)
  keeps := by
    rintro (_ | old) new _ puts
    · cases puts
      rfl
    · cases puts

def read (k : K) (absent : ρ) (found : V → ρ) : Access key ρ where
  target := k
  effect
    | none => (absent,.keep)
    | some row => (found row,.keep)
  keeps := by
    rintro (_ | old) new _ puts
    · cases puts
    · cases puts

def write (row : V) (done : ρ) : Access key ρ where
  target := key row
  effect := fun _ => (done,.put row)
  keeps := by
    intro old new _ puts
    cases puts
    rfl

def modify (k : K) (absent : ρ) (update : V → ρ × Option V)
    (keeps : ∀ old new, key old = k → (update old).2 = some new → key new = k) : Access key ρ where
  target := k
  effect
    | none => (absent,.keep)
    | some row => ((update row).1,match (update row).2 with | none => .keep | some new => .put new)
  keeps := by
    rintro (_ | old) new known puts
    · cases puts
    · cases result : (update old).2 with
      | none =>
        simp only [result] at puts
        cases puts
      | some made =>
        simp only [result,Change.put.injEq] at puts
        subst puts
        exact keeps old made (known old rfl) result

def replace (row : V) (absent done : ρ) : Access key ρ where
  target := key row
  effect
    | none => (absent,.keep)
    | some _ => (done,.put row)
  keeps := by
    rintro (_ | old) new _ puts
    · cases puts
    · cases puts
      rfl

def remove (k : K) (absent done : ρ) : Access key ρ where
  target := k
  effect
    | none => (absent,.keep)
    | some _ => (done,.drop)
  keeps := by
    rintro (_ | old) new _ puts
    · cases puts
    · cases puts

end Access

def SameBut (name : V → N) (y : N) (t u : Table key) : Prop := ∀ row, name row ≠ y → (row ∈ t.rows ↔ row ∈ u.rows)

namespace Access

variable (a : Access key ρ) (t : Table key)

lemma run_other (row : V) (other : key row ≠ a.target) : row ∈ (a.run t).2.rows ↔ row ∈ t.rows := by
  have known : ∀ o ∈ t.lookup a.target,key o = a.target := fun o found => t.lookup_key found
  unfold run
  cases result : (a.effect (t.lookup a.target)).2 with
  | keep => exact Iff.rfl
  | put new =>
    have filed := a.keeps _ new known result
    rw [change,mem_insert,filed]
    constructor
    · rintro (rfl | ⟨member,_⟩)
      · exact absurd filed other
      · exact member
    · exact fun member => .inr ⟨member,other⟩
  | drop =>
    rw [change,mem_erase]
    exact ⟨fun kept => kept.1,fun member => ⟨member,other⟩⟩

variable {name : V → N} {y : N} {t} {u : Table key} (apart : ∀ row, name row = y → key row ≠ a.target)
  (same : SameBut name y t u)

include apart same

lemma lookup_same : t.lookup a.target = u.lookup a.target := by
  apply Option.ext
  intro row
  rw [lookup_eq_some,lookup_eq_some]
  constructor
  · rintro ⟨member,filed⟩
    exact ⟨(same row (fun named => apart row named filed)).mp member,filed⟩
  · rintro ⟨member,filed⟩
    exact ⟨(same row (fun named => apart row named filed)).mpr member,filed⟩

lemma run_reply : (a.run t).1 = (a.run u).1 := by
  unfold run
  rw [a.lookup_same apart same]

lemma run_same : SameBut name y (a.run t).2 (a.run u).2 := by
  intro row different
  by_cases filed : key row = a.target
  · unfold run
    rw [a.lookup_same apart same]
    cases result : (a.effect (u.lookup a.target)).2 with
    | keep => exact same row different
    | put new =>
      rw [change,change,mem_insert,mem_insert]
      have before := same row different
      tauto
    | drop =>
      rw [change,change,mem_erase,mem_erase]
      have before := same row different
      tauto
  · rw [a.run_other t row filed,a.run_other u row filed]
    exact same row different

end Access

end Filing.Table
