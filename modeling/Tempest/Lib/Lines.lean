import Mathlib.Data.List.Basic

/-! Texts as sequences of lines. `join` ends each line with the separator, `split` cuts a
text into its lines, the last of which may have no end. A text that was cut off
somewhere is split into the lines that it still has whole and at most one torn one. -/
namespace Lines
open List

variable {α : Type} (sep : α)

def join (lines : List (List α)) : List α := lines.flatMap (fun line => line ++ [sep])

def split [DecidableEq α] : List α → List (List α)
  | [] => []
  | b :: rest =>
    if b = sep then [] :: split rest
    else
      match split rest with
      | [] => [[b]]
      | line :: lines => (b :: line) :: lines

/-- How many lines lie within the first elements of the text, the end of the last one
aside. -/
def whole : List (List α) → Nat → Nat
  | [], _ => 0
  | line :: rest, size => if line.length ≤ size then whole rest (size - (line.length + 1)) + 1 else 0

@[simp] lemma join_nil : join sep ([] : List (List α)) = [] := rfl

lemma join_cons (line : List α) (rest : List (List α)) : join sep (line :: rest) = line ++ sep :: join sep rest := by
  simp [join]

lemma join_append (first second : List (List α)) : join sep (first ++ second) = join sep first ++ join sep second :=
  flatMap_append

variable {sep} {line : List α} {lines : List (List α)}

lemma whole_zero (proper : ∀ line ∈ lines,line ≠ []) : whole lines 0 = 0 := by
  cases lines with
  | nil => rfl
  | cons line rest =>
    have positive := length_pos_iff.mpr (proper line mem_cons_self)
    rw [whole,if_neg (by omega)]

lemma take_line {size : Nat} (beyond : line.length < size) (rest : List α) :
    (line ++ sep :: rest).take size = line ++ sep :: rest.take (size - (line.length + 1)) := by
  obtain ⟨more,rfl⟩ : ∃ more,size = line.length + (more + 1) := ⟨size - line.length - 1,by omega⟩
  rw [take_append,take_of_length_le (Nat.le_add_right _ _),Nat.add_sub_cancel_left,take_succ_cons,
    Nat.add_sub_add_left,Nat.add_sub_cancel]

lemma le_whole {n size : Nat} (listed : n ≤ lines.length) (inside : (join sep (lines.take n)).length ≤ size + 1) :
    n ≤ whole lines size := by
  induction lines generalizing n size with
  | nil => exact Nat.le_trans listed (Nat.zero_le _)
  | cons line rest ih =>
    cases n with
    | zero => exact Nat.zero_le _
    | succ n =>
      rw [take_succ_cons,join_cons,length_append,length_cons] at inside
      rw [whole,if_pos (by omega)]
      exact Nat.succ_le_succ (ih (Nat.le_of_succ_le_succ listed) (by omega))

lemma take_join (sep : α) (lines : List (List α)) (size : Nat) :
    ∃ n part,(join sep lines).take size = join sep (lines.take n) ++ part ∧ n ≤ lines.length ∧
      (part = [] ∨ ∃ line ∈ lines,part <+: line) := by
  induction lines generalizing size with
  | nil => exact ⟨0,[],by simp,Nat.le_refl _,.inl rfl⟩
  | cons line rest ih =>
    rw [join_cons]
    by_cases inside : line.length < size
    · obtain ⟨n,part,text,listed,cut⟩ := ih (size - (line.length + 1))
      refine ⟨n + 1,part,?_,Nat.succ_le_succ listed,?_⟩
      · rw [take_line inside,text,take_succ_cons,join_cons,append_assoc,cons_append]
      · rcases cut with none | ⟨next,member,early⟩
        · exact .inl none
        · exact .inr ⟨next,mem_cons_of_mem _ member,early⟩
    · refine ⟨0,line.take size,?_,Nat.zero_le _,.inr ⟨line,mem_cons_self, take_prefix _ _⟩⟩
      rw [take_append_of_le_length (by omega),take_zero,join_nil,nil_append]

section

variable [DecidableEq α]

lemma split_cons_of_ne {b : α} (other : b ≠ sep) {rest : List α} {line : List α} {lines : List (List α)}
    (parts : split sep rest = line :: lines) : split sep (b :: rest) = (b :: line) :: lines := by
  rw [split,if_neg other,parts]

lemma split_line (clean : sep ∉ line) (rest : List α) : split sep (line ++ sep :: rest) = line :: split sep rest := by
  induction line with
  | nil => simp [split]
  | cons b line ih =>
    rw [mem_cons,not_or] at clean
    exact split_cons_of_ne (Ne.symm clean.1) (ih clean.2)

lemma split_last (clean : sep ∉ line) (proper : line ≠ []) : split sep line = [line] := by
  induction line with
  | nil => exact absurd rfl proper
  | cons b line ih =>
    rw [mem_cons,not_or] at clean
    cases line with
    | nil => simp [split,Ne.symm clean.1]
    | cons c line => exact split_cons_of_ne (Ne.symm clean.1) (ih clean.2 (cons_ne_nil c line))

lemma split_join (clean : ∀ line ∈ lines,sep ∉ line) (rest : List α) :
    split sep (join sep lines ++ rest) = lines ++ split sep rest := by
  induction lines with
  | nil => rfl
  | cons line lines ih =>
    rw [forall_mem_cons] at clean
    rw [join_cons,append_assoc,cons_append,split_line clean.1,ih clean.2,cons_append]

lemma split_take (clean : ∀ line ∈ lines,sep ∉ line) (proper : ∀ line ∈ lines,line ≠ []) (size : Nat) :
    ∃ torn,split sep ((join sep lines).take size) = lines.take (whole lines size) ++ torn ∧
      (torn = [] ∨ ∃ line ∈ lines,∃ part,torn = [part] ∧ part <+: line ∧ part ≠ line) := by
  induction lines generalizing size with
  | nil => exact ⟨[],by simp [split,whole],.inl rfl⟩
  | cons line rest ih =>
    rw [forall_mem_cons] at clean proper
    rw [join_cons,whole]
    by_cases inside : line.length ≤ size
    · rw [if_pos inside]
      rcases Nat.eq_or_lt_of_le inside with exact | beyond
      · -- the cut is between the line and its end
        refine ⟨[],?_,.inl rfl⟩
        rw [← exact,take_left',split_last clean.1 proper.1,Nat.sub_eq_zero_of_le (Nat.le_succ _),
          whole_zero proper.2]
        all_goals rfl
      · obtain ⟨torn,parts,cut⟩ := ih clean.2 proper.2 (size - (line.length + 1))
        refine ⟨torn,?_,?_⟩
        · rw [take_line beyond,split_line clean.1,parts,take_succ_cons,cons_append]
        · rcases cut with none | ⟨next,member,part,rest⟩
          · exact .inl none
          · exact .inr ⟨next,mem_cons_of_mem _ member,part,rest⟩
    · rw [if_neg inside,take_zero,take_append_of_le_length (by omega)]
      by_cases empty : line.take size = []
      · exact ⟨[],by rw [empty,append_nil,split],.inl rfl⟩
      · refine ⟨[line.take size],?_,.inr ⟨line,mem_cons_self,line.take size,rfl, take_prefix _ _,?_⟩⟩
        · exact split_last (fun member => clean.1 (mem_of_mem_take member)) empty
        · intro same
          have shorter := congrArg List.length same
          rw [length_take] at shorter
          omega

end

end Lines
