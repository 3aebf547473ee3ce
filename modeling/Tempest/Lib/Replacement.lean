import Mathlib.Data.List.Infix

/-! Replacing all occurrences of one list in another, from the left and without overlap. What
stands between the replaced occurrences is kept and has no occurrence in it, so anything
that occurs in the result was there before or overlaps what was put in. -/
namespace Replacement
open List

variable {α : Type}

def Overlaps (first second : List α) : Prop :=
  ∃ before shared after before' after', shared ≠ [] ∧ first = before ++ shared ++ after ∧
    second = before' ++ shared ++ after' ∧ (before = [] ∨ before' = []) ∧ (after = [] ∨ after' = [])

variable {before : List α}

section overlap

variable {word new : List α}

lemma Overlaps.of_infix (inside : word <:+: new) (proper : word ≠ []) : Overlaps word new := by
  obtain ⟨before,after,rfl⟩ := inside
  exact ⟨[],word,[],before,after,proper,by simp,rfl,.inl rfl,.inl rfl⟩

variable {pieces : List (List α)}

lemma infix_of_intercalate (proper : word ≠ []) (proper' : new ≠ []) (apart : ¬Overlaps word new) (inside : word <:+: new.intercalate pieces) : ∃ piece ∈ pieces,word <:+: piece := by
  induction pieces with
  | nil =>
    exact absurd (infix_nil.mp inside) proper
  | cons piece pieces ih =>
    by_cases last : pieces = []
    · subst last
      rw [intercalate_singleton] at inside
      exact ⟨piece,mem_cons_self,inside⟩
    rw [intercalate_cons_of_ne_nil last,append_assoc] at inside
    rcases infix_append_iff_ne_nil.mp inside with here | later | ⟨front,back,_,full,rfl,⟨x,_⟩,start⟩
    · exact ⟨piece,mem_cons_self,here⟩
    · rcases infix_append_iff_ne_nil.mp later with within | behind | ⟨front,back,full,_,rfl,⟨x,rfl⟩,_⟩
      · exact absurd (Overlaps.of_infix within proper) apart
      · obtain ⟨found,listed,there⟩ := ih behind
        exact ⟨found,mem_cons_of_mem _ listed,there⟩
      · exact absurd ⟨[],front,back,x,[],full,rfl,by simp,.inl rfl,.inr rfl⟩ apart
    · -- the occurrence begins in the piece and reaches into what follows, which starts with `new`
      have both : new <+: new ++ new.intercalate pieces := prefix_append _ _
      rcases Nat.le_total back.length new.length with short | long
      · obtain ⟨rest,rfl⟩ := prefix_of_prefix_length_le start both short
        exact absurd ⟨front,back,[],[],rest,full,by simp,rfl,.inr rfl,.inl rfl⟩ apart
      · obtain ⟨rest,rfl⟩ := prefix_of_prefix_length_le both start long
        exact absurd ⟨front,new,rest,[],[],proper',by simp,by simp,.inr rfl,.inr rfl⟩ apart

lemma infix_of_ends {shared after before' after' : List α} (left : before = [] ∨ before' = [])
    (right : after = [] ∨ after' = []) :
    before ++ shared ++ after <:+: before ++ (before' ++ shared ++ after') ++ after := by
  refine ⟨before',after',?_⟩
  rcases left with rfl | rfl <;> rcases right with rfl | rfl <;> simp

lemma not_infix_of_ends {shared after : List α} {c first : α} (begins : shared.head? = some first) (other : first ≠ c) :
    ¬before ++ shared ++ after <:+: before ++ List.replicate (before ++ shared ++ after).length c ++ after := by
  rintro ⟨x,y,same⟩
  obtain ⟨rest,rfl⟩ : ∃ rest,shared = first :: rest := by
    cases shared with
    | nil => cases begins
    | cons head rest => exact ⟨rest,by simpa using begins⟩
  -- the place where the shared part begins falls among the copies
  have sizes := congrArg List.length same
  have places := congrArg (fun list => list[x.length + before.length]?) same
  simp only [length_append,length_cons,length_replicate] at sizes
  have left : (x ++ (before ++ first :: rest ++ after) ++ y)[x.length + before.length]? = some first := by
    simp
  have right : (before ++ List.replicate (before ++ first :: rest ++ after).length c ++ after)[x.length + before.length]? = some c := by
    rw [append_assoc,getElem?_append_right (by omega),getElem?_append_left (by simp; omega),
      getElem?_replicate_of_lt (by simp; omega)]
  rw [left,right] at places
  exact other (Option.some.inj places)

lemma infix_intercalate {piece : List α} (listed : piece ∈ pieces) (between : List α) :
    piece <:+: between.intercalate pieces := by
  induction pieces with
  | nil => cases listed
  | cons first pieces ih =>
    by_cases last : pieces = []
    · subst last
      rw [mem_singleton.mp listed,intercalate_singleton]
    rw [intercalate_cons_of_ne_nil last,append_assoc]
    rcases mem_cons.mp listed with rfl | later
    · exact (prefix_append _ _).isInfix
    · exact (ih later).trans (suffix_append_of_suffix (suffix_append _ _)).isInfix

end overlap

variable [DecidableEq α]

def scan (old new : List α) : Nat → List α → List α
  | _,[] => []
  | skip + 1,_ :: rest => scan old new skip rest
  | 0,c :: rest => if old.isPrefixOf (c :: rest) then new ++ scan old new (old.length - 1) rest else c :: scan old new 0 rest

def replaceAll (old new text : List α) : List α := scan old new 0 text

variable {old new text : List α}

lemma scan_eq_drop (skip : Nat) (text : List α) : scan old new skip text = replaceAll old new (text.drop skip) := by
  induction text generalizing skip with
  | nil => cases skip <;> rfl
  | cons c rest ih =>
    cases skip with
    | zero => rfl
    | succ skip => exact ih skip

lemma replaceAll_match (proper : old ≠ []) (rest : List α) :
    replaceAll old new (old ++ rest) = new ++ replaceAll old new rest := by
  obtain ⟨c,tail,rfl⟩ := exists_cons_of_ne_nil proper
  rw [cons_append,replaceAll,scan,scan_eq_drop]
  simp

lemma replaceAll_cons {c : α} {rest : List α} (none : ¬old <+: c :: rest) :
    replaceAll old new (c :: rest) = c :: replaceAll old new rest := by
  rw [replaceAll,scan,if_neg (by simpa using none)]
  rfl

lemma replaceAll_first (proper : old ≠ []) (rest : List α)
    (none : ∀ tail,tail ≠ [] → tail <:+ before → ¬old <+: tail ++ (old ++ rest)) :
    replaceAll old new (before ++ (old ++ rest)) = before ++ (new ++ replaceAll old new rest) := by
  induction before with
  | nil => exact replaceAll_match proper rest
  | cons c before ih =>
    have here : ¬old <+: c :: (before ++ (old ++ rest)) := none (c :: before) (cons_ne_nil _ _) (suffix_refl _)
    rw [cons_append,replaceAll_cons here,ih (fun tail full later => none tail full (later.trans (suffix_cons c before)))]
    rfl

lemma replaceAll_absent (absent : ¬old <:+: text) : replaceAll old new text = text := by
  induction text with
  | nil => rfl
  | cons c rest ih =>
    rw [infix_cons_iff,not_or] at absent
    rw [replaceAll_cons absent.1,ih absent.2]

lemma replaceAll_pieces (proper : old ≠ []) (new text : List α) :
    ∃ pieces,old.intercalate pieces = text ∧ new.intercalate pieces = replaceAll old new text ∧
      ∀ piece ∈ pieces,¬old <:+: piece := by
  suffices pieces : ∀ size text,text.length ≤ size →
      ∃ first others,old.intercalate (first :: others) = text ∧ new.intercalate (first :: others) = replaceAll old new text ∧
        ∀ piece ∈ first :: others,¬old <:+: piece by
    obtain ⟨first,others,found⟩ := pieces text.length text (Nat.le_refl _)
    exact ⟨first :: others,found⟩
  have empty : ¬old <:+: [] := fun inside => proper (infix_nil.mp inside)
  intro size
  induction size with
  | zero =>
    intro text short
    obtain rfl := length_eq_zero_iff.mp (Nat.le_zero.mp short)
    exact ⟨[],[],by simp,by simp [replaceAll,scan],by simpa using empty⟩
  | succ size ih =>
    intro text short
    by_cases here : old <+: text
    · obtain ⟨rest,rfl⟩ := here
      have positive := length_pos_iff.mpr proper
      rw [length_append] at short
      obtain ⟨first,others,whole,result,clean⟩ := ih rest (by omega)
      refine ⟨[],first :: others,?_,?_,?_⟩
      · rw [intercalate_cons_cons,whole,nil_append]
      · rw [intercalate_cons_cons,result,replaceAll_match proper,nil_append]
      · simpa [empty] using clean
    · cases text with
      | nil => exact ⟨[],[],by simp,by simp [replaceAll,scan],by simpa using empty⟩
      | cons c rest =>
        obtain ⟨first,others,whole,result,clean⟩ := ih rest (by simpa using short)
        refine ⟨c :: first,others,?_,?_,?_⟩
        · rw [intercalate_cons_cons_left,whole]
        · rw [intercalate_cons_cons_left,result,replaceAll_cons here]
        · have start : first <+: rest := by
            rw [← whole]
            cases others with
            | nil => simp
            | cons next others => simp [intercalate_cons_cons,append_assoc]
          intro piece listed
          rcases mem_cons.mp listed with rfl | later
          · rw [infix_cons_iff,not_or]
            exact ⟨fun inside => here (inside.trans (prefix_cons_inj c |>.mpr start)),clean first mem_cons_self⟩
          · exact clean piece (mem_cons_of_mem _ later)

lemma infix_of_replaceAll {word : List α} (proper : word ≠ []) (proper' : new ≠ []) (proper'' : old ≠ [])
    (apart : ¬Overlaps word new) (inside : word <:+: replaceAll old new text) : word ≠ old ∧ word <:+: text := by
  obtain ⟨pieces,whole,result,clean⟩ := replaceAll_pieces proper'' new text
  rw [← result] at inside
  obtain ⟨piece,listed,there⟩ := infix_of_intercalate proper proper' apart inside
  constructor
  · rintro rfl
    exact clean piece listed there
  · rw [← whole]
    exact there.trans (infix_intercalate listed old)

end Replacement
