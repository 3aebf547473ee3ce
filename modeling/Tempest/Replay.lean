import Mathlib.Data.List.GetD
import Mathlib.Data.List.Induction
import Tempest.Lib.Association
import Tempest.Lib.BinarySearch

/-! Replay in `internal/replay`: the interceptor that records side effects and plays them back,
and the memoizer's checkpoints with their index. -/
namespace Tempest.Replay
open Association BinarySearch Function List

inductive InterceptError (E : Type)
  | nonDeterministicBranch (id : String)
  | failed (err : E)
  deriving DecidableEq

def InterceptError.text {E : Type} (quote : String → String) (shown : E → String) : InterceptError E → String
  | .nonDeterministicBranch id =>
    "replay: non-deterministic execution branch detected: side effect " ++ quote id ++ " not found in replay log"
  | .failed err => shown err

structure SideEffectInterceptor where
  isReplaying : Bool
  recordedData : String → Option String
  recordedKeys : List String
  cursor : Nat

/-- An effect: its value in the recording, and what a call of it would give in the replay. -/
structure Effect (E : Type) where
  id : String
  value : String
  again : Except E String

namespace SideEffectInterceptor
variable {E : Type} {s : SideEffectInterceptor}

def new (replaying : Bool) : SideEffectInterceptor := ⟨replaying,fun _ => none,[],0⟩

def loadRecordedSideEffects (s : SideEffectInterceptor) (effects : String → Option String) (order : List String) :
    SideEffectInterceptor := { s with recordedData := effects, recordedKeys := order, cursor := 0 }

def sideEffects (s : SideEffectInterceptor) : (String → Option String) × List String := (s.recordedData,s.recordedKeys)

/-- The result, and whether the effect was called. -/
def intercept (s : SideEffectInterceptor) (id : String) (fn : Except E String) :
    (Except (InterceptError E) String × Bool) × SideEffectInterceptor :=
  if s.isReplaying then
    match s.recordedData id with
    | none => ((.error (.nonDeterministicBranch id),false),s)
    | some val => ((.ok val,false),{ s with cursor := s.cursor + 1 })
  else
    match fn with
    | .error err => ((.error (.failed err),true),s)
    | .ok val => ((.ok val,true),{ s with
        recordedData := update s.recordedData id (some val), recordedKeys := s.recordedKeys ++ [id] })

def run (s : SideEffectInterceptor) :
    List (String × Except E String) → List (Except (InterceptError E) String × Bool) × SideEffectInterceptor
  | [] => ([],s)
  | (id,fn) :: rest =>
    let (result,s) := s.intercept id fn
    let (results,s) := s.run rest
    (result :: results,s)

def live (effects : List (Effect E)) : List (String × Except E String) := effects.map fun e => (e.id,.ok e.value)

def recorded (effects : List (Effect E)) : List (Except (InterceptError E) String × Bool) × SideEffectInterceptor :=
  (new false).run (live effects)

def replayed (effects : List (Effect E)) : List (Except (InterceptError E) String × Bool) :=
  let recording := (recorded effects).2.sideEffects
  (((new true).loadRecordedSideEffects recording.1 recording.2).run (effects.map fun e => (e.id,e.again))).1

def noted (data : String → Option String) (effects : List (Effect E)) : String → Option String :=
  effects.foldl (fun data e => update data e.id (some e.value)) data

lemma run_live (recording : s.isReplaying = false) (effects : List (Effect E)) :
    (s.run (live effects)).1 = effects.map (fun e => (.ok e.value,true)) ∧
      (s.run (live effects)).2.recordedData = noted s.recordedData effects := by
  induction effects generalizing s with
  | nil => exact ⟨rfl,rfl⟩
  | cons e rest ih =>
    have notReplaying : ¬ s.isReplaying = true := by simp [recording]
    simp only [live,List.map_cons,run,intercept,if_neg notReplaying] at ih ⊢
    exact ⟨congrArg _ (ih (by exact recording)).1,(ih (by exact recording)).2⟩

lemma run_replay (replaying : s.isReplaying = true) (effects : List (Effect E)) :
    (s.run (effects.map fun e => (e.id,e.again))).1 = effects.map fun e =>
      ((s.recordedData e.id).elim (.error (.nonDeterministicBranch e.id)) .ok,false) := by
  induction effects generalizing s with
  | nil => rfl
  | cons e rest ih =>
    simp only [List.map_cons,run,intercept,if_pos replaying]
    cases found : s.recordedData e.id with
    | none => exact congrArg _ (ih replaying)
    | some val => exact congrArg _ (ih (s := { s with cursor := s.cursor + 1 }) replaying)

/-- What is noted under the id of an effect is the value of one with that id. -/
theorem noted_of_mem (data : String → Option String) {effects : List (Effect E)} {e : Effect E} (member : e ∈ effects) :
    ∃ e' ∈ effects,e'.id = e.id ∧ noted data effects e.id = some e'.value := by
  induction effects using List.reverseRecOn with
  | nil => cases member
  | append_singleton earlier last ih =>
    rw [noted,List.foldl_append,List.foldl_cons,List.foldl_nil]
    by_cases same : e.id = last.id
    · exact ⟨last,by simp,same.symm,by rw [same,update_self]⟩
    · rw [update_of_ne same]
      obtain earlier | rfl := List.mem_append.mp member |>.imp_right List.mem_singleton.mp
      · obtain ⟨e',inside,rest⟩ := ih earlier
        exact ⟨e',List.mem_append_left _ inside,rest⟩
      · exact absurd rfl same

/-- A replay agrees with its recording exactly if no id has two values. -/
theorem replayed_iff (effects : List (Effect E)) :
    replayed effects = (recorded effects).1.map (fun result => (result.1,false)) ↔
      ∀ e ∈ effects,∀ e' ∈ effects,e.id = e'.id → e.value = e'.value := by
  obtain ⟨results,data⟩ := run_live (s := new false) rfl effects
  change _ = noted (fun _ => none) effects at data
  have agrees : replayed effects = (recorded effects).1.map (fun result => (result.1,false)) ↔
      ∀ e ∈ effects,noted (fun _ => none) effects e.id = some e.value := by
    rw [replayed,run_replay rfl,recorded,results,List.map_map,List.map_inj_left]
    simp only [loadRecordedSideEffects,sideEffects,data]
    refine forall₂_congr fun e _ => ?_
    cases noted (fun _ => none) effects e.id <;> simp
  rw [agrees]
  constructor
  · intro noted_ e member e' member' same
    have value := noted_ e member
    rw [same,noted_ e' member'] at value
    exact (Option.some.inj value).symm
  · intro single e member
    obtain ⟨e',member',same,value⟩ := noted_of_mem (fun _ => none) member
    rw [value,single e' member' e member same]

theorem replayed_two_values : let effects : List (Effect String) := [⟨"a","1",.ok "3"⟩,⟨"a","2",.ok "3"⟩]
    (recorded effects).1 = [(.ok "1",true),(.ok "2",true)] ∧ replayed effects = [(.ok "2",false),(.ok "2",false)] := by
  decide

end SideEffectInterceptor

structure StreamMemoizer (α : Type) where
  interval : Nat
  maxEntries : Int
  checkpoints : List (Nat × α)
  sortedSeqs : List Nat

inductive Call (α : Type)
  | maybeMemoize (seq : Nat) (state : α) (force : Bool)
  | clear

namespace StreamMemoizer
variable {α : Type} {m : StreamMemoizer α} {seq : Nat} {state : α}

def new (interval : Nat) (maxEntries : Int) : StreamMemoizer α :=
  ⟨if interval = 0 then 100 else interval,if maxEntries ≤ 0 then 256 else maxEntries,[],[]⟩

def evict (m : StreamMemoizer α) (seq : Nat) : StreamMemoizer α :=
  if m.maxEntries ≤ m.checkpoints.length ∧ find seq m.checkpoints = none then
    match m.sortedSeqs with
    | [] => m
    | oldest :: rest => { m with checkpoints := erase oldest m.checkpoints,sortedSeqs := rest }
  else m

def store (m : StreamMemoizer α) (seq : Nat) (state : α) : StreamMemoizer α :=
  { m with
    sortedSeqs := if find seq m.checkpoints = none then (m.sortedSeqs ++ [seq]).insertionSort (· ≤ ·) else m.sortedSeqs
    checkpoints := put seq state m.checkpoints }

def maybeMemoize (m : StreamMemoizer α) (seq : Nat) (state : α) (force : Bool) : Bool × StreamMemoizer α :=
  if !force ∧ seq % m.interval ≠ 0 then (false,m) else (true,(m.evict seq).store seq state)

def clear (m : StreamMemoizer α) : StreamMemoizer α := { m with checkpoints := [],sortedSeqs := [] }

def findNearestCheckpoint (m : StreamMemoizer α) (targetSeq : Nat) : Option (Nat × Option α) :=
  let idx := search m.sortedSeqs.length (fun i => decide (targetSeq < m.sortedSeqs.getD i 0))
  if m.sortedSeqs = [] ∨ idx = 0 then none
  else
    let nearestSeq := m.sortedSeqs.getD (idx - 1) 0
    some (nearestSeq,find nearestSeq m.checkpoints)

/-- The memoizer after the calls, the last of them first. -/
def after (interval : Nat) (maxEntries : Int) : List (Call α) → StreamMemoizer α
  | [] => new interval maxEntries
  | .maybeMemoize seq state force :: calls => ((after interval maxEntries calls).maybeMemoize seq state force).2
  | .clear :: calls => (after interval maxEntries calls).clear

def lastStored (interval seq : Nat) : List (Call α) → Option α
  | [] => none
  | .maybeMemoize seq' state force :: calls =>
    if seq' = seq ∧ (force ∨ seq' % interval = 0) then some state else lastStored interval seq calls
  | .clear :: calls => lastStored interval seq calls

/-- What is found for a target is the greatest number up to it, with its last state. -/
def Nearest (m : StreamMemoizer α) (calls : List (Call α)) (t : Nat) : Prop :=
  match m.findNearestCheckpoint t with
  | none => ∀ seq ∈ m.sortedSeqs,t < seq
  | some (seq,state) => seq ∈ m.sortedSeqs ∧ seq ≤ t ∧ (∀ other ∈ m.sortedSeqs,other ≤ t → other ≤ seq) ∧
    state.isSome ∧ state = lastStored m.interval seq calls

structure Indexed (m : StreamMemoizer α) (calls : List (Call α)) : Prop where
  increasing : m.sortedSeqs.Pairwise (· < ·)
  listed : ∀ seq,seq ∈ m.sortedSeqs ↔ (find seq m.checkpoints).isSome
  bounded : m.checkpoints.length ≤ m.maxEntries
  nearest : ∀ t,Nearest m calls t

structure Inv (m : StreamMemoizer α) (calls : List (Call α)) : Prop where
  sorted : Sorted m.checkpoints
  keyed : m.sortedSeqs = keys m.checkpoints
  room : m.checkpoints.length ≤ m.maxEntries
  positive : 0 < m.maxEntries
  last : ∀ seq state,find seq m.checkpoints = some state → lastStored m.interval seq calls = some state

variable {calls : List (Call α)} {entries : List (Nat × α)}

lemma keys_put_perm (seq : Nat) (state : α) (sorted : Sorted entries) :
    (keys (put seq state entries)).Perm (if find seq entries = none then seq :: keys entries else keys entries) := by
  refine (perm_ext_iff_of_nodup sorted.put.keys_nodup ?_).mpr fun key => ?_
  · split_ifs with absent
    · exact nodup_cons.mpr ⟨find_eq_none.mp absent,sorted.keys_nodup⟩
    · exact sorted.keys_nodup
  · have stored : key ∈ keys (put seq state entries) ↔ key = seq ∨ key ∈ keys entries := by
      rw [← find_isSome,← find_isSome,find_put]
      split_ifs with same <;> simp [same]
    rw [stored]
    split_ifs with absent
    · exact mem_cons.symm
    · rw [find_eq_none,not_not] at absent
      exact or_iff_right_of_imp (fun same => same ▸ absent)

lemma Inv.evict (inv : Inv m calls) (seq : Nat) : Inv (m.evict seq) calls ∧
    (find seq (m.evict seq).checkpoints = none → (m.evict seq).checkpoints.length < m.maxEntries) := by
  unfold StreamMemoizer.evict
  split_ifs with full
  · have room := inv.room
    have positive := inv.positive
    cases entries : m.checkpoints with
    | nil =>
      rw [entries,length_nil] at full
      omega
    | cons first others =>
      have sorted := inv.sorted
      rw [entries] at sorted room
      have later := (pairwise_cons.mp sorted).1
      have keyed := inv.keyed
      rw [entries,Association.keys,map_cons] at keyed
      have rest : erase first.1 (first :: others) = others := by
        rw [erase,filter_cons_of_neg (by simp),filter_eq_self]
        exact fun entry member => decide_eq_true (ne_of_gt (later entry member))
      rw [length_cons] at room
      simp only [keyed,rest]
      refine ⟨⟨(pairwise_cons.mp sorted).2,rfl,by dsimp only; omega,positive,fun seq state found => inv.last seq state ?_⟩,fun _ => by omega⟩
      rw [entries,find_cons,if_neg,found]
      exact ne_of_lt (later _ (mem_of_find found))
  · exact ⟨inv,fun absent => lt_of_not_ge fun most => full ⟨most,absent⟩⟩

lemma evict_interval (m : StreamMemoizer α) (seq : Nat) :
    (m.evict seq).interval = m.interval ∧ (m.evict seq).maxEntries = m.maxEntries := by
  unfold evict
  split_ifs
  · split <;> exact ⟨rfl,rfl⟩
  · exact ⟨rfl,rfl⟩

lemma Inv.maybeMemoize (inv : Inv m calls) (seq : Nat) (state : α) (force : Bool) :
    Inv (m.maybeMemoize seq state force).2 (.maybeMemoize seq state force :: calls) := by
  unfold StreamMemoizer.maybeMemoize
  split_ifs with skipped
  · refine ⟨inv.sorted,inv.keyed,inv.room,inv.positive,fun key value found => ?_⟩
    rw [lastStored,if_neg (by simp_all)]
    exact inv.last key value found
  · obtain ⟨kept,room⟩ := inv.evict seq
    obtain ⟨interval,maxEntries⟩ := evict_interval m seq
    have perm := keys_put_perm seq state kept.sorted
    have listed := sort_keys kept.sorted.put perm.symm
    have count := perm.length_eq
    simp only [Association.keys,length_map] at count
    refine ⟨kept.sorted.put,?_,?_,kept.positive,fun key value found => ?_⟩
    · dsimp only [store]
      rw [kept.keyed]
      split_ifs at listed ⊢ with absent
      · rw [← listed]
        exact Perm.eq_of_pairwise (fun a b _ _ => le_antisymm) (pairwise_insertionSort _ _) (pairwise_insertionSort _ _)
          (((perm_insertionSort _ _).trans (perm_append_singleton _ _)).trans (perm_insertionSort _ _).symm)
      · rw [← listed,sort_keys kept.sorted (Perm.refl _)]
    · dsimp only [store]
      have most := kept.room
      split_ifs at count with absent
      · have := room absent
        rw [count,length_cons,length_map]
        omega
      · rw [count,length_map]
        omega
    · rw [lastStored]
      dsimp only [store] at found
      rw [find_put] at found
      have due : force = true ∨ seq % m.interval = 0 := by simpa [imp_iff_not_or] using skipped
      rw [← interval] at due
      split_ifs at found with same
      · exact (if_pos ⟨same.symm,due⟩).trans found
      · exact (if_neg (fun both => same both.1.symm)).trans (kept.last key value found)

lemma after_inv (interval : Nat) (maxEntries : Int) (calls : List (Call α)) : Inv (after interval maxEntries calls) calls := by
  induction calls with
  | nil =>
    have positive : 0 < (new interval maxEntries : StreamMemoizer α).maxEntries := by
      dsimp only [new]
      split_ifs <;> omega
    exact ⟨.nil,rfl,positive.le,positive,nofun⟩
  | cons call calls inv =>
    cases call with
    | maybeMemoize seq state force => exact inv.maybeMemoize seq state force
    | clear => exact ⟨.nil,rfl,inv.positive.le,inv.positive,nofun⟩

lemma Inv.nearest (inv : Inv m calls) (t : Nat) : Nearest m calls t := by
  have increasing := inv.sorted.keys
  rw [← inv.keyed] at increasing
  have ordered : ∀ k l,k ≤ l → l < m.sortedSeqs.length → m.sortedSeqs.getD k 0 ≤ m.sortedSeqs.getD l 0 := by
    intro k l below inside
    rw [getD_eq_getElem _ _ inside,getD_eq_getElem _ _ (lt_of_le_of_lt below inside)]
    rcases below.eq_or_lt with rfl | less
    · exact le_refl _
    · exact (pairwise_iff_getElem.mp increasing k l _ _ less).le
  have around := @search_around (fun i => decide (t < m.sortedSeqs.getD i 0)) m.sortedSeqs.length
    (fun k l below inside passes => decide_eq_true (lt_of_lt_of_le (of_decide_eq_true passes) (ordered k l below inside)))
  have place : ∀ seq ∈ m.sortedSeqs,∃ k < m.sortedSeqs.length,m.sortedSeqs.getD k 0 = seq := by
    intro seq member
    obtain ⟨k,inside,rfl⟩ := mem_iff_getElem.mp member
    exact ⟨k,inside,getD_eq_getElem _ _ inside⟩
  unfold Nearest findNearestCheckpoint
  dsimp only
  generalize search _ _ = idx at around
  have inside := around.inside
  split_ifs with none_
  · intro seq member
    obtain ⟨k,small,rfl⟩ := place seq member
    have first := none_.resolve_left (ne_nil_of_mem member)
    exact of_decide_eq_true (around.behind k (by omega) small)
  · have before : idx - 1 < m.sortedSeqs.length := by omega
    have stored : m.sortedSeqs.getD (idx - 1) 0 ∈ m.sortedSeqs := by
      rw [getD_eq_getElem _ _ before]
      exact getElem_mem before
    have some_ := stored
    rw [inv.keyed,← find_isSome,← inv.keyed] at some_
    obtain ⟨state,found⟩ := Option.isSome_iff_exists.mp some_
    refine ⟨stored,not_lt.mp (of_decide_eq_false (around.before _ (by omega))),fun other member small => ?_,some_,?_⟩
    · obtain ⟨k,inside,rfl⟩ := place other member
      apply ordered k _ _ before
      by_contra above
      exact absurd (of_decide_eq_true (around.behind k (by omega) inside)) (by omega)
    · rw [found,inv.last _ _ found]

/-- In every state the index lists the checkpoints, and the nearest one is found. -/
theorem after_indexed (interval : Nat) (maxEntries : Int) (calls : List (Call α)) :
    Indexed (after interval maxEntries calls) calls := by
  have inv := after_inv interval maxEntries calls
  refine ⟨?_,fun seq => ?_,inv.room,inv.nearest⟩
  · rw [inv.keyed]
    exact inv.sorted.keys
  · rw [inv.keyed,find_isSome]

end StreamMemoizer

end Tempest.Replay
