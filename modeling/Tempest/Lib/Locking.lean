import Mathlib.Logic.Function.Basic

/-! Threads that take and release mutexes. A thread is in a phase; a phase tells which
mutexes the thread holds and which one it waits for. Taking and releasing keep the owners
in step with the phases, so who holds what can be read off the phases. -/
namespace Locking
open Function

structure Locks (G M Φ : Type) where
  owner : M → Option G
  phase : G → Φ

variable {G M Φ : Type}

def Crossed (wants : Φ → Option M) (s : Locks G M Φ) (g h : G) : Prop :=
  ∃ m m', s.owner m = some g ∧ wants (s.phase h) = some m ∧ s.owner m' = some h ∧ wants (s.phase g) = some m'

def Consistent (held : Φ → List M) (s : Locks G M Φ) : Prop := ∀ g m, s.owner m = some g ↔ m ∈ held (s.phase g)

namespace Locks

variable [DecidableEq G]

def goto (s : Locks G M Φ) (g : G) (next : Φ) : Locks G M Φ := { s with phase := Function.update s.phase g next }

variable [DecidableEq M]

def lock (s : Locks G M Φ) (g : G) (m : M) (next : Φ) : Locks G M Φ :=
  if s.owner m = none then { s.goto g next with owner := Function.update s.owner m (some g) } else s

def unlock (s : Locks G M Φ) (g : G) (m : M) (next : Φ) : Locks G M Φ :=
  { s.goto g next with owner := Function.update s.owner m none }

end Locks

section consistent

variable [DecidableEq G] {held : Φ → List M} {s : Locks G M Φ} {g : G} {m : M} {next : Φ}

lemma Consistent.goto (consistent : Consistent held s) (same : held next = held (s.phase g)) :
    Consistent held (s.goto g next) := by
  intro h m
  dsimp only [Locks.goto]
  by_cases here : h = g
  · subst here
    rw [update_self,same]
    exact consistent h m
  · rw [update_of_ne here]
    exact consistent h m

variable [DecidableEq M]

lemma Consistent.lock (consistent : Consistent held s) (free : s.owner m = none) (more : held next = m :: held (s.phase g)) :
    Consistent held (s.lock g m next) := by
  intro h m'
  rw [Locks.lock,if_pos free]
  dsimp only [Locks.goto]
  by_cases here : h = g
  · subst here
    rw [update_self,more,List.mem_cons,← consistent h m']
    by_cases same : m' = m
    · simp [same]
    · rw [update_of_ne same]
      simp [same]
  · rw [update_of_ne here,← consistent h m']
    by_cases same : m' = m
    · subst same
      rw [free]
      simp [Ne.symm here]
    · rw [update_of_ne same]

lemma Consistent.unlock (consistent : Consistent held s) (less : held (s.phase g) = m :: held next) (gone : m ∉ held next) :
    Consistent held (s.unlock g m next) := by
  have mine := (consistent g m).mpr (by rw [less]; exact List.mem_cons_self)
  intro h m'
  dsimp only [Locks.unlock,Locks.goto]
  by_cases same : m' = m
  · subst same
    by_cases here : h = g
    · subst here
      simp [gone]
    · rw [update_of_ne here,← consistent h m',mine]
      simp [Ne.symm here]
  · rw [update_of_ne same]
    by_cases here : h = g
    · subst here
      rw [consistent h m',less]
      simp [same]
    · rw [update_of_ne here]
      exact consistent h m'

end consistent

end Locking
