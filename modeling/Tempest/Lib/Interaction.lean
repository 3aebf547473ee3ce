import Mathlib.Data.List.Basic

/-! Programs as sequences of atomic operations on a shared state. A program
either has finished with a value or performs one operation and continues with
the answer. The same program is run without interruption by `run` and one
operation at a time, against other threads, by `Pool.advance`. -/
open List
namespace Interaction

inductive Prog {Op : Type} (Res : Op → Type) (α : Type) : Type
  | done (value : α) : Prog Res α
  | call (op : Op) (next : Res op → Prog Res α) : Prog Res α

variable {Op σ ι α β γ : Type} {Res : Op → Type} {P : σ → Prop}

namespace Prog

def bind : Prog Res α → (α → Prog Res β) → Prog Res β
  | .done value, rest => rest value
  | .call op next, rest => .call op (fun answer => (next answer).bind rest)

instance : Monad (Prog Res) where
  pure := .done
  bind := .bind

@[simp] lemma done_bind (value : α) (rest : α → Prog Res β) :
    (Prog.done value : Prog Res α) >>= rest = rest value := rfl

@[simp] lemma call_bind (op : Op) (next : Res op → Prog Res α) (rest : α → Prog Res β) :
    Prog.call op next >>= rest = .call op (fun answer => next answer >>= rest) := rfl

def run (exec : (op : Op) → σ → Res op × σ) : Prog Res α → σ → α × σ
  | .done value, s => (value,s)
  | .call op next, s => (next (exec op s).1).run exec (exec op s).2

variable (exec : (op : Op) → σ → Res op × σ)

@[simp] lemma run_done (value : α) (s : σ) : (Prog.done value : Prog Res α).run exec s = (value,s) := rfl

lemma run_call (op : Op) (next : Res op → Prog Res α) (s : σ) :
    (Prog.call op next).run exec s = (next (exec op s).1).run exec (exec op s).2 := rfl

lemma run_bind (p : Prog Res α) (rest : α → Prog Res β) (s : σ) :
    (p >>= rest).run exec s = (rest (p.run exec s).1).run exec (p.run exec s).2 := by
  induction p generalizing s with
  | done value => rfl
  | call op next ih => exact ih (exec op s).1 (exec op s).2

def Uses (allowed : Op → Prop) : Prog Res α → Prop
  | .done _ => True
  | .call op next => allowed op ∧ ∀ answer, (next answer).Uses allowed

variable {p : Prog Res α}

lemma Uses.bind {allowed : Op → Prop} {rest : α → Prog Res β}
    (first : p.Uses allowed) (second : ∀ value,(rest value).Uses allowed) : (p >>= rest).Uses allowed := by
  induction p with
  | done value => exact second value
  | call op next ih => exact ⟨first.1,fun answer => ih answer (first.2 answer)⟩

lemma Uses.run_keeps {allowed : Op → Prop}
    (keeps : ∀ op s,allowed op → P s → P (exec op s).2) (uses : p.Uses allowed) (s : σ) (holds : P s) : P (p.run exec s).2 := by
  induction p generalizing s with
  | done value => exact holds
  | call op next ih =>
    exact ih (exec op s).1 (uses.2 _) (exec op s).2 (keeps op s uses.1 holds)

end Prog

/-- What holds at the start and is kept by every admitted step holds after any
sequence of steps each of which was admitted in the state it was taken in. -/
def Along (step : σ → ι → σ) (admitted : σ → ι → Prop) : σ → List ι → Prop
  | _, [] => True
  | s, choice :: rest => admitted s choice ∧ Along step admitted (step s choice) rest

instance Along.decide (step : σ → ι → σ) (admitted : σ → ι → Prop) [decided : ∀ s choice, Decidable (admitted s choice)] :
    ∀ s choices, Decidable (Along step admitted s choices)
  | _, [] => .isTrue trivial
  | s, choice :: rest =>
    @instDecidableAnd _ _ (decided s choice) (Along.decide step admitted (step s choice) rest)

variable {step : σ → ι → σ} {admitted allowed : σ → ι → Prop} {s : σ} {choices : List ι}

lemma Along.append {first second : List ι} : Along step admitted s (first ++ second) ↔
      Along step admitted s first ∧ Along step admitted (first.foldl step s) second := by
  induction first generalizing s with
  | nil => simp [Along]
  | cons choice rest ih => simp [Along,ih,and_assoc]

lemma Along.and (first : Along step admitted s choices) (second : Along step allowed s choices) :
    Along step (fun s choice => admitted s choice ∧ allowed s choice) s choices := by
  induction choices generalizing s with
  | nil => exact trivial
  | cons choice rest ih => exact ⟨⟨first.1,second.1⟩,ih first.2 second.2⟩

lemma Along.of_forall {Q : ι → Prop} (all : ∀ choice ∈ choices,Q choice)
    (s : σ) : Along step (fun _ choice => Q choice) s choices := by
  induction choices generalizing s with
  | nil => exact trivial
  | cons choice rest ih =>
    rw [forall_mem_cons] at all
    exact ⟨all.1,ih all.2 (step s choice)⟩

lemma Along.invariant (keeps : ∀ s choice,P s → admitted s choice → P (step s choice)) (start : P s) (along : Along step admitted s choices) :
    P (choices.foldl step s) := by
  induction choices generalizing s with
  | nil => exact start
  | cons choice rest ih => exact ih (keeps s choice start along.1) along.2

lemma Along.weaken (keeps : ∀ s choice,P s → admitted s choice → P (step s choice))
    (allows : ∀ s choice,P s → admitted s choice → allowed s choice) (start : P s)
    (along : Along step admitted s choices) : Along step allowed s choices := by
  induction choices generalizing s with
  | nil => exact trivial
  | cons choice rest ih =>
    exact ⟨allows s choice start along.1,ih (keeps s choice start along.1) along.2⟩

lemma Along.always (keeps : ∀ s choice,P s → P (step s choice)) (allows : ∀ s choice,P s → allowed s choice) (start : P s)
    (choices : List ι) : Along step allowed s choices := by
  induction choices generalizing s with
  | nil => exact trivial
  | cons choice rest ih => exact ⟨allows s choice start,ih (keeps s choice start)⟩

lemma Along.matched {τ : Type} {other : τ → ι → τ} {allowed : τ → ι → Prop} {R : σ → τ → Prop}
    (keeps : ∀ s t choice,R s t → allowed t choice → R (step s choice) (other t choice))
    (same : ∀ s t choice,R s t → (admitted s choice ↔ allowed t choice)) {t : τ}
    (start : R s t) : Along step admitted s choices ↔ Along other allowed t choices := by
  induction choices generalizing s t with
  | nil => exact Iff.rfl
  | cons choice rest ih =>
    constructor
    · rintro ⟨here,later⟩
      have allows := (same s t choice start).mp here
      exact ⟨allows,(ih (keeps s t choice start allows)).mp later⟩
    · rintro ⟨allows,later⟩
      exact ⟨(same s t choice start).mpr allows,(ih (keeps s t choice start allows)).mpr later⟩

lemma Along.congr (keeps : ∀ s choice,P s → allowed s choice → P (step s choice))
    (same : ∀ s choice,P s → (admitted s choice ↔ allowed s choice)) (start : P s) :
    Along step admitted s choices ↔ Along step allowed s choices := by
  apply Along.matched (R := fun s t => s = t ∧ P s)
  · rintro s _ choice ⟨rfl,holds⟩ allows
    exact ⟨rfl,keeps s choice holds allows⟩
  · rintro s _ choice ⟨rfl,holds⟩
    exact same s choice holds
  · exact ⟨rfl,start⟩

def Throughout (step : σ → ι → σ) (P : σ → Prop) (s : σ) (choices : List ι) : Prop :=
  ∀ done, done <+: choices → P (done.foldl step s)

lemma Throughout.cons {choice : ι} {rest : List ι} :
    Throughout step P s (choice :: rest) ↔ P s ∧ Throughout step P (step s choice) rest := by
  constructor
  · intro holds
    refine ⟨holds [] nil_prefix,?_⟩
    intro done early
    exact holds (choice :: done) (cons_prefix_cons.mpr ⟨rfl,early⟩)
  · rintro ⟨here,later⟩ done early
    cases done with
    | nil => exact here
    | cons first done =>
      obtain ⟨rfl,shorter⟩ := cons_prefix_cons.mp early
      exact later done shorter

lemma Throughout.mono {Q : σ → Prop}
    (holds : Throughout step P s choices) (weaken : ∀ s,P s → Q s) : Throughout step Q s choices := by
  intro done early
  exact weaken _ (holds done early)

lemma throughout_iff_along (start : P s) :
    Throughout step P s choices ↔ Along step (fun s choice => P (step s choice)) s choices := by
  induction choices generalizing s with
  | nil => exact ⟨fun _ => trivial,fun _ done early => by rw [prefix_nil.mp early]; exact start⟩
  | cons choice rest ih =>
    rw [Throughout.cons]
    constructor
    · rintro ⟨_,later⟩
      have next := later [] nil_prefix
      exact ⟨next,(ih next).mp later⟩
    · rintro ⟨next,later⟩
      exact ⟨start,(ih next).mpr later⟩

lemma Along.throughout (keeps : ∀ s choice,P s → admitted s choice → P (step s choice)) (start : P s)
    (along : Along step admitted s choices) : Throughout step P s choices := by
  rintro done ⟨rest,rfl⟩
  exact Along.invariant keeps start (Along.append.mp along).1

lemma final_iff_along (lasting : ∀ s choice,P (step s choice) → P s) (start : P s) :
    P (choices.foldl step s) ↔ Along step (fun s choice => P (step s choice)) s choices := by
  constructor
  · intro holds
    have earlier : ∀ s (rest : List ι),P (rest.foldl step s) → P s := by
      intro s rest
      induction rest generalizing s with
      | nil => exact id
      | cons choice rest ih => exact fun later => lasting s choice (ih (step s choice) later)
    rw [← throughout_iff_along start]
    rintro done ⟨rest,rfl⟩
    rw [foldl_append] at holds
    exact earlier _ rest holds
  · intro along
    exact (throughout_iff_along start).mpr along choices prefix_rfl

/-- A thread is a label together with the rest of its program. -/
structure Thread (Res : Op → Type) (ι α : Type) where
  label : ι
  rest : Prog Res α

namespace Thread

def Finished (t : Thread Res ι α) : Prop := ∃ value, t.rest = .done value

instance (t : Thread Res ι α) : Decidable t.Finished :=
  match t with
  | ⟨_,.done value⟩ => .isTrue ⟨value,rfl⟩
  | ⟨_,.call _ _⟩ => .isFalse (fun ⟨_,same⟩ => by cases same)

end Thread

structure Pool (Res : Op → Type) (σ ι α : Type) where
  shared : σ
  threads : List (Thread Res ι α)

namespace Pool

/-- One atomic operation of the thread at position `i`. `observe` records in the
label what the thread has seen; a finished or missing thread does nothing. -/
def advance (exec : (op : Op) → σ → Res op × σ) (observe : ι → (op : Op) → Res op → ι)
    (pool : Pool Res σ ι α) (i : Nat) : Pool Res σ ι α :=
  match pool.threads[i]? with
  | some ⟨label,.call op next⟩ =>
    { shared := (exec op pool.shared).2
      threads := pool.threads.set i
        ⟨observe label op (exec op pool.shared).1,next (exec op pool.shared).1⟩ }
  | _ => pool

def upcoming (pool : Pool Res σ ι α) (i : Nat) : Option (ι × Op) :=
  match pool.threads[i]? with
  | some ⟨label,.call op _⟩ => some (label,op)
  | _ => none

lemma upcoming_of_found {pool : Pool Res σ ι α} {i : Nat} {label : ι} {op : Op} {next : Res op → Prog Res α}
    (found : pool.threads[i]? = some ⟨label,.call op next⟩) : pool.upcoming i = some (label,op) := by
  rw [upcoming,found]

end Pool

/-- A discipline for threads: how the label of a thread follows what the thread
does, what the thread may do under a label, which answers it can get, and under
which labels it may end. -/
structure Discipline (Res : Op → Type) (ι : Type) where
  observe : ι → (op : Op) → Res op → ι
  permitted : ι → Op → Prop
  credible : ι → (op : Op) → Res op → Prop
  ends : ι → Prop

def Prog.Obeys (rule : Discipline Res ι) : ι → Prog Res α → Prop
  | label, .done _ => rule.ends label
  | label, .call op next =>
    rule.permitted label op ∧
      ∀ answer, rule.credible label op answer → (next answer).Obeys rule (rule.observe label op answer)

def Thread.Obeys (rule : Discipline Res ι) (t : Thread Res ι α) : Prop := t.rest.Obeys rule t.label

namespace Pool

variable {rule : Discipline Res ι} {exec : (op : Op) → σ → Res op × σ} {pool : Pool Res σ ι α}

/-- One atomic operation of a disciplined pool: nothing happens, or the thread at
position `i` performs a permitted operation. -/
inductive Step (rule : Discipline Res ι) (exec : (op : Op) → σ → Res op × σ) (pool : Pool Res σ ι α)
    (i : Nat) : Pool Res σ ι α → Prop
  | idle : Step rule exec pool i pool
  | acts (label : ι) (op : Op) (next : Res op → Prog Res α)
      (found : pool.threads[i]? = some ⟨label,.call op next⟩) (permitted : rule.permitted label op)
      (continues : rule.credible label op (exec op pool.shared).1 →
        (next (exec op pool.shared).1).Obeys rule (rule.observe label op (exec op pool.shared).1)) :
      Step rule exec pool i {
        shared := (exec op pool.shared).2
        threads := pool.threads.set i
          ⟨rule.observe label op (exec op pool.shared).1,next (exec op pool.shared).1⟩ }

lemma advance_step (obeys : ∀ t ∈ pool.threads,t.Obeys rule) (i : Nat) :
    Step rule exec pool i (pool.advance exec rule.observe i) := by
  unfold advance
  cases found : pool.threads[i]? with
  | none => exact .idle
  | some t =>
    obtain ⟨label,rest⟩ := t
    have keeps := obeys _ (mem_of_getElem? found)
    cases rest with
    | done value => exact .idle
    | call op next => exact .acts label op next found keeps.1 (keeps.2 _)

end Pool

end Interaction
