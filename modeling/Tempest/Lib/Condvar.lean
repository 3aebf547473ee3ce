import Mathlib.Data.List.Count
import Mathlib.Data.List.Perm.Basic

/-! A condition variable. Callers that wait stand in line; a signal wakes the first one, a
broadcast all of them, and a caller that was woken comes back to the lock in its own time. -/
open List
namespace Condvar

structure Cond (C : Type) where
  waiting : List C
  woken : List C
  deriving DecidableEq

namespace Cond

variable {C : Type}

def new : Cond C := ⟨[],[]⟩

def wait (cond : Cond C) (caller : C) : Cond C := { cond with waiting := cond.waiting ++ [caller] }

def signal (cond : Cond C) : Cond C :=
  match cond.waiting with
  | [] => cond
  | first :: rest => ⟨rest,cond.woken ++ [first]⟩

def broadcast (cond : Cond C) : Cond C := ⟨[],cond.woken ++ cond.waiting⟩

def resume (cond : Cond C) (i : Nat) : Option (C × Cond C) :=
  cond.woken[i]?.map (fun caller => (caller,{ cond with woken := cond.woken.eraseIdx i }))

def waits (cond : Cond C) (kind : C → Bool) : Nat := cond.waiting.countP kind

def wakes (cond : Cond C) (kind : C → Bool) : Nat := cond.woken.countP kind

variable (cond : Cond C) (kind : C → Bool) (caller : C)

@[simp] lemma wait_waits : (cond.wait caller).waits kind = cond.waits kind + if kind caller then 1 else 0 := by
  simp [wait,waits,countP_append,countP_singleton]

@[simp] lemma wait_wakes : (cond.wait caller).wakes kind = cond.wakes kind := rfl

lemma signal_moves : cond.signal.waits kind + cond.signal.wakes kind = cond.waits kind + cond.wakes kind ∧
    cond.wakes kind ≤ cond.signal.wakes kind := by
  unfold signal waits wakes
  split
  · exact ⟨rfl,Nat.le_refl _⟩
  · rename_i line
    simp only [line,countP_append,countP_cons,countP_nil]
    omega

lemma signal_first (first : cond.waiting.head?.any kind = true) : cond.signal.wakes kind = cond.wakes kind + 1 := by
  unfold signal wakes
  split
  · rename_i line
    simp [line] at first
  · rename_i line
    simp only [line,head?_cons,Option.any_some] at first
    simp [countP_append,first]

lemma signal_waiting_nil (none : cond.waiting = []) : cond.signal.waiting = [] := by
  simp [signal,none]

variable {cond} in
lemma resume_cases {i : Nat} {caller : C} {rest : Cond C} (resumed : cond.resume i = some (caller,rest)) :
    cond.woken[i]? = some caller ∧ rest = { cond with woken := cond.woken.eraseIdx i } := by
  obtain ⟨found,there,same⟩ := Option.map_eq_some_iff.mp resumed
  cases same
  exact ⟨there,rfl⟩

variable {cond} in
lemma resume_wakes {i : Nat} {caller : C} {rest : Cond C} (resumed : cond.resume i = some (caller,rest)) :
    rest.waiting = cond.waiting ∧ cond.wakes kind = rest.wakes kind + if kind caller then 1 else 0 := by
  obtain ⟨there,rfl⟩ := resume_cases resumed
  refine ⟨rfl,?_⟩
  obtain ⟨bound,rfl⟩ := List.getElem?_eq_some_iff.mp there
  have perm := getElem_cons_eraseIdx_perm bound
  rw [wakes,wakes,← perm.countP_eq,countP_cons]

lemma waits_eq_zero (free : cond.waits kind = 0) : ∀ caller ∈ cond.waiting,kind caller = false := by
  simpa [waits,countP_eq_zero] using free

end Cond
end Condvar
