import Tempest.Types
import Tempest.Lib.Dependency

/-! What a run is for: steps with dependencies that are released once everything
they depend on is done. A status gives the state of each step; steps are queued
by `release`, and a queued step succeeds or fails. In a sound status exactly the
steps whose dependencies are done have been released. -/
namespace Tempest.Progress
open Dependency Function

variable {ι : Type}

abbrev Status (ι : Type) := ι → Option StepState

def Done (σ : Status ι) (i : ι) : Prop := (σ i).any StepState.isDone = true

instance (σ : Status ι) (i : ι) : Decidable (Done σ i) := inferInstanceAs (Decidable (_ = true))

variable (deps : ι → List ι)

def Ready (σ : Status ι) (i : ι) : Prop := σ i = some .pending ∧ ∀ j ∈ deps i, Done σ j

instance (σ : Status ι) (i : ι) : Decidable (Ready deps σ i) := inferInstanceAs (Decidable (_ ∧ _))

def release (σ : Status ι) : Status ι := fun i => if Ready deps σ i then some .queued else σ i

structure Sound (σ : Status ι) : Prop where
  settled : ∀ i, σ i ≠ some .running
  released : ∀ i state, σ i = some state → (state ≠ .pending ↔ ∀ j ∈ deps i, Done σ j)

variable {deps} {σ : Status ι}

lemma release_done (i : ι) : Done (release deps σ) i ↔ Done σ i := by
  simp only [release,Done]
  split_ifs with ready
  · rw [ready.1]
    exact Iff.rfl
  · exact Iff.rfl

lemma release_eq {i : ι} {state : StepState} (found : release deps σ i = some state) :
    σ i = some state ∨ state = .queued ∧ σ i = some .pending := by
  unfold release at found
  split_ifs at found with ready
  · cases found
    exact .inr ⟨rfl,ready.1⟩
  · exact .inl found

lemma release_update_eq [DecidableEq ι] {i j : ι} {target state : StepState} (other : state ≠ .queued)
    (found : release deps (update σ i (some target)) j = some state) : j = i ∧ state = target ∨ σ j = some state := by
  rcases release_eq found with same | ⟨wrong,_⟩
  · by_cases here : j = i
    · rw [here,update_self,Option.some.injEq] at same
      exact .inl ⟨here,same.symm⟩
    · rw [update_of_ne here] at same
      exact .inr same
  · exact absurd wrong other

lemma release_sound (settled : ∀ i,σ i ≠ some .running)
    (earned : ∀ i state,σ i = some state → state ≠ .pending → ∀ j ∈ deps i,Done σ j) :
    Sound deps (release deps σ) := by
  refine ⟨?_,?_⟩
  · intro i
    unfold release
    split_ifs
    · simp
    · exact settled i
  · intro i state found
    simp only [release_done]
    unfold release at found
    split_ifs at found with ready
    · cases found
      exact ⟨fun _ => ready.2,fun _ => by simp⟩
    · refine ⟨earned i state found,?_⟩
      intro done waiting
      exact ready ⟨waiting ▸ found,done⟩

lemma start_sound (start : ∀ i state,σ i = some state → state = .pending) : Sound deps (release deps σ) := by
  refine release_sound ?_ ?_
  · intro i running
    cases start i _ running
  · intro i state found started
    exact absurd (start i state found) started

lemma exists_queued (sound : Sound deps σ) (order : List ι) (ordered : Ordered deps order)
    (known : ∀ i ∈ order,(σ i).isSome) (unfailed : ∀ i ∈ order,σ i ≠ some .failed)
    (undone : ∃ i ∈ order,¬ Done σ i) : ∃ i ∈ order,σ i = some .queued := by
  obtain ⟨i,member,lacks,done⟩ := ordered.first_lacking (Done σ) undone
  obtain ⟨state,found⟩ := Option.isSome_iff_exists.mp (known i member)
  have started := (sound.released i state found).mpr done
  refine ⟨i,member,?_⟩
  have undone : state.isDone = false := by
    unfold Done at lacks
    simpa [found] using lacks
  rw [found]
  cases state with
  | pending => exact absurd rfl started
  | queued => rfl
  | running => exact absurd found (sound.settled i)
  | failed => exact absurd found (unfailed i member)
  | succeeded | skipped => cases undone

variable [DecidableEq ι]

lemma update_done_mono (i : ι) (undone : ¬ Done σ i) (state : StepState) (j : ι) (done : Done σ j) :
    Done (update σ i (some state)) j := by
  have different : j ≠ i := by
    intro same
    exact undone (same ▸ done)
  unfold Done
  rw [update_of_ne different]
  exact done

lemma update_earned (sound : Sound deps σ) (i : ι) (queued : σ i = some .queued) (target : StepState)
    (k : ι) (state : StepState) (found : update σ i (some target) k = some state)
    (started : state ≠ .pending) : ∀ j ∈ deps k,Done (update σ i (some target)) j := by
  have undone : ¬ Done σ i := by
    unfold Done
    rw [queued]
    decide
  intro j depends
  apply update_done_mono i undone
  by_cases same : k = i
  · subst same
    exact (sound.released k .queued queued).mp (by decide) j depends
  · rw [update_of_ne same] at found
    exact (sound.released k state found).mp started j depends

lemma update_settled (sound : Sound deps σ) (i : ι) (target : StepState) (stopped : target ≠ .running)
    (k : ι) : update σ i (some target) k ≠ some .running := by
  by_cases same : k = i
  · subst same
    simpa using stopped
  · rw [update_of_ne same]
    exact sound.settled k

lemma succeed_sound (sound : Sound deps σ) (i : ι) (queued : σ i = some .queued) :
    Sound deps (release deps (update σ i (some .succeeded))) :=
  release_sound (update_settled sound i .succeeded (by decide)) (update_earned sound i queued .succeeded)

lemma fail_sound (sound : Sound deps σ) (i : ι) (queued : σ i = some .queued) :
    Sound deps (update σ i (some .failed)) := by
  refine ⟨update_settled sound i .failed (by decide),?_⟩
  intro k state found
  refine ⟨update_earned sound i queued .failed k state found,?_⟩
  intro done waiting
  have different : k ≠ i := by
    intro same
    subst same
    rw [update_self] at found
    cases found
    cases waiting
  rw [update_of_ne different] at found
  refine (sound.released k state found).mpr ?_ waiting
  intro j depends
  have after := done j depends
  by_cases same : j = i
  · subst same
    unfold Done at after
    rw [update_self] at after
    cases after
  · unfold Done at after
    rwa [update_of_ne same] at after

end Tempest.Progress
