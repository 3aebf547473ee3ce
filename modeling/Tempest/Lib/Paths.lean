import Mathlib.Data.List.Infix

/-! Lexical paths over an arbitrary alphabet with a separator and a dot. A path text names a
place: a root, or so many steps up from where one stands, and then the names one goes down.
Cleaning a text writes its place in the one normal form, and joining two texts walks the
second one from the place of the first. -/
open List
namespace Paths

variable {α : Type} {slash dot : α}

def Proper (slash dot : α) (name : List α) : Prop :=
  slash ∉ name ∧ name ≠ [] ∧ name ≠ [dot] ∧ name ≠ [dot,dot]

abbrev Name (slash dot : α) := {name : List α // Proper slash dot name}

inductive Place (slash dot : α) where
  | rooted (names : List (Name slash dot))
  | relative (ups : Nat) (names : List (Name slash dot))

namespace Place

def up : Place slash dot → Place slash dot
  | rooted names => rooted names.dropLast
  | relative ups [] => relative (ups + 1) []
  | relative ups names => relative ups names.dropLast

def descend : Place slash dot → List (Name slash dot) → Place slash dot
  | rooted names,more => rooted (names ++ more)
  | relative ups names,more => relative ups (names ++ more)

def elements : Place slash dot → List (List α)
  | rooted names => names.map (·.val)
  | relative ups names => List.replicate ups [dot,dot] ++ names.map (·.val)

def text (place : Place slash dot) : List α :=
  match place with
  | rooted _ => slash :: [slash].intercalate place.elements
  | relative _ _ => if place.elements.isEmpty then [dot] else [slash].intercalate place.elements

variable (place : Place slash dot)

@[simp] lemma descend_nil : place.descend [] = place := by
  cases place <;> simp [descend]

lemma descend_append (names more : List (Name slash dot)) :
    place.descend (names ++ more) = (place.descend names).descend more := by
  cases place <;> simp [descend]

lemma descend_injective : Function.Injective place.descend := by
  intro names more same
  cases place <;> simpa [descend] using same

lemma up_descend (names : List (Name slash dot)) (last : Name slash dot) :
    (place.descend (names ++ [last])).up = place.descend names := by
  cases place with
  | rooted before => simp [descend,up,← append_assoc]
  | relative ups before =>
    simp only [descend,← append_assoc]
    cases whole : before ++ names ++ [last] with
    | nil => simp at whole
    | cons first rest => simp [up,← whole]

lemma elements_free (apart : slash ≠ dot) : ∀ element ∈ place.elements,slash ∉ element := by
  have down : ∀ names : List (Name slash dot),∀ element ∈ names.map (·.val),slash ∉ element := by
    intro names element listed
    obtain ⟨name,-,rfl⟩ := mem_map.mp listed
    exact name.property.1
  cases place with
  | rooted names => exact down names
  | relative ups names =>
    intro element listed
    rcases mem_append.mp listed with above | below
    · rw [eq_of_mem_replicate above]
      simp [apart]
    · exact down names element below

lemma up_rooted (n : Nat) (names : List (Name slash dot)) :
    up^[n] (rooted names) = rooted (names.take (names.length - n)) := by
  induction n with
  | zero => simp
  | succ n ih =>
    rw [Function.iterate_succ_apply',ih,up,dropLast_eq_take,length_take,take_take]
    congr 2
    omega

lemma text_climbing (ups : Nat) (names : List (Name slash dot)) : [dot,dot] <+: (relative (ups + 1) names).text := by
  have first : (relative (ups + 1) names).elements = [dot,dot] :: (relative ups names).elements := rfl
  rw [text,first]
  cases (relative ups names).elements with
  | nil => simp
  | cons next rest => exact ⟨slash :: [slash].intercalate (next :: rest),by simp [intercalate_cons_cons]⟩

lemma head_intercalate (apart : slash ≠ dot) (ups : Nat) (names : List (Name slash dot)) :
    ([slash].intercalate (relative ups names).elements).head? ≠ some slash := by
  have first : ∀ element (rest : List (List α)),element ≠ [] → slash ∉ element →
      ([slash].intercalate (element :: rest)).head? ≠ some slash := by
    intro element rest full free
    obtain ⟨c,tail,rfl⟩ := exists_cons_of_ne_nil full
    rw [intercalate_cons_cons_left]
    simp only [head?_cons,ne_eq,Option.some.injEq]
    rintro rfl
    exact free mem_cons_self
  have free := elements_free (relative ups names) apart
  rcases ups with _ | ups
  · rcases names with _ | ⟨name,names⟩
    · simp [elements]
    · exact first _ _ name.property.2.1 name.property.1
  · exact first [dot,dot] _ (by simp) (free _ (by simp [elements,replicate_succ]))

end Place

/-- The first elements come first in the second ones too, but for the last one, which is
the start of a longer element there. -/
def Outgrown (elements others : List (List α)) : Prop :=
  ∃ front last extension rest, elements = front ++ [last] ∧ others = front ++ (last ++ extension) :: rest ∧ extension ≠ []

variable {elements others : List (List α)}

lemma Outgrown.not_first (longer : Outgrown elements others) : ¬elements <+: others := by
  obtain ⟨front,last,extension,rest,rfl,rfl,more⟩ := longer
  rintro ⟨tail,same⟩
  simp [more] at same

lemma outgrown_append_iff (before elements others : List (List α)) :
    Outgrown (before ++ elements) (before ++ others) ↔ Outgrown elements others := by
  induction before with
  | nil => rfl
  | cons first before ih =>
    rw [← ih]
    constructor
    · rintro ⟨front,last,extension,rest,left,right,more⟩
      rcases front with _ | ⟨head,front⟩
      · simp_all
      · rw [cons_append,cons_append,List.cons.injEq] at left right
        exact ⟨front,last,extension,rest,left.2,right.2,more⟩
    · rintro ⟨front,last,extension,rest,left,right,more⟩
      exact ⟨first :: front,last,extension,rest,by rw [cons_append,left]; rfl,by rw [cons_append,right]; rfl,more⟩

variable [DecidableEq α]

instance (name : List α) : Decidable (Proper slash dot name) :=
  inferInstanceAs (Decidable (_ ∧ _ ∧ _ ∧ _))

namespace Place

def enter (place : Place slash dot) (element : List α) : Place slash dot :=
  if element = [dot,dot] then place.up
  else if proper : Proper slash dot element then place.descend [⟨element,proper⟩]
  -- an empty element or a single dot stays where it is
  else place

def walk (place : Place slash dot) (elements : List (List α)) : Place slash dot :=
  elements.foldl enter place

end Place

def start (slash dot : α) (text : List α) : Place slash dot :=
  if text.head? = some slash then .rooted [] else .relative 0 []

def read (slash dot : α) (text : List α) : Place slash dot :=
  (start slash dot text).walk (text.splitOn slash)

def clean (slash dot : α) (text : List α) : List α := (read slash dot text).text

def join (slash dot : α) (base path : List α) : List α :=
  if base = [] then (if path = [] then [] else clean slash dot path)
  else clean slash dot (base ++ slash :: path)

def Within (slash dot : α) (base path : List α) : Prop :=
  ∃ more, read slash dot path = (read slash dot base).descend more

namespace Place

variable (place : Place slash dot)

lemma walk_append (first second : List (List α)) : place.walk (first ++ second) = (place.walk first).walk second :=
  foldl_append

@[simp] lemma enter_nil : place.enter [] = place := by
  simp [enter,Proper]

@[simp] lemma enter_dot : place.enter [dot] = place := by
  simp [enter,Proper]

lemma walk_names (names : List (Name slash dot)) : place.walk (names.map (·.val)) = place.descend names := by
  induction names generalizing place with
  | nil => simp [walk]
  | cons name names ih =>
    have entered : place.enter name.val = place.descend [name] := by
      rw [enter,if_neg name.property.2.2.2,dif_pos name.property]
    calc place.walk ((name :: names).map (·.val)) = (place.enter name.val).walk (names.map (·.val)) := rfl
      _ = (place.descend [name]).descend names := by rw [entered,ih]
      _ = place.descend (name :: names) := by rw [← descend_append]; rfl

lemma walk_ups (ups n : Nat) :
    (relative ups [] : Place slash dot).walk (List.replicate n [dot,dot]) = relative (ups + n) [] := by
  induction n generalizing ups with
  | zero => rfl
  | succ n ih =>
    calc (relative ups []).walk (List.replicate (n + 1) [dot,dot])
        = ((relative ups []).enter [dot,dot]).walk (List.replicate n [dot,dot]) := rfl
      _ = (relative (ups + 1) [] : Place slash dot).walk (List.replicate n [dot,dot]) := by rw [enter,if_pos rfl,up]
      _ = relative (ups + (n + 1)) [] := by rw [ih,Nat.add_right_comm,Nat.add_assoc]

lemma walk_relative (slash dot : α) (elements : List (List α)) :
    ∃ ups names,(relative 0 [] : Place slash dot).walk elements = relative ups names ∧
      ∀ place : Place slash dot,place.walk elements = (up^[ups] place).descend names := by
  -- the last element is taken off: what it does depends on the names gathered so far only
  induction elements using List.reverseRecOn with
  | nil => exact ⟨0,[],rfl,fun place => (descend_nil place).symm⟩
  | append_singleton elements element ih =>
    obtain ⟨ups,names,here,anywhere⟩ := ih
    simp only [walk_append,here,anywhere]
    simp only [walk,foldl_cons,foldl_nil,enter]
    split
    · rcases eq_nil_or_concat' names with rfl | ⟨names,last,rfl⟩
      · exact ⟨ups + 1,[],rfl,fun place => by simp [Function.iterate_succ_apply']⟩
      · refine ⟨ups,names,?_,fun place => up_descend _ _ _⟩
        exact up_descend (relative ups []) names last
    · split
      · rename_i proper
        exact ⟨ups,names ++ [⟨element,proper⟩],rfl,fun place => (descend_append _ _ _).symm⟩
      · exact ⟨ups,names,rfl,fun place => rfl⟩

lemma walk_intercalate (free : ∀ element ∈ elements,slash ∉ element) :
    place.walk (([slash].intercalate elements).splitOn slash) = place.walk elements := by
  cases elements with
  | nil => simp [walk]
  | cons first rest => rw [splitOn_intercalate slash free (cons_ne_nil first rest)]

end Place

open Place

lemma start_rooted (text : List α) : start slash dot (slash :: text) = .rooted [] := by
  simp [start]

lemma read_text (apart : slash ≠ dot) (place : Place slash dot) : read slash dot place.text = place := by
  have free := place.elements_free apart
  cases place with
  | rooted names =>
    have parts : (slash :: [slash].intercalate (rooted names).elements).splitOn slash =
        [] :: ([slash].intercalate (rooted names).elements).splitOn slash := splitOn_append_cons_self [] _
    rw [read,text,start_rooted,parts,walk,foldl_cons]
    exact (walk_intercalate _ free).trans (walk_names _ names)
  | relative ups names =>
    rw [read,text]
    split
    · rename_i blank
      have away : start slash dot [dot] = .relative 0 [] := by simp [start,apart.symm]
      obtain ⟨flat,bare⟩ := append_eq_nil_iff.mp (List.isEmpty_iff.mp blank)
      obtain rfl : ups = 0 := by simpa using flat
      obtain rfl := map_eq_nil_iff.mp bare
      rw [away,splitOn_eq_singleton (by simpa using apart),walk,foldl_cons,enter_dot]
      rfl
    · rw [start,if_neg (head_intercalate apart ups names),walk_intercalate _ free]
      rw [elements,walk_append,walk_ups,walk_names]
      simp [descend]

lemma read_rooted (path : List α) : ∃ names,read slash dot (slash :: path) = .rooted names := by
  obtain ⟨ups,names,-,walked⟩ := walk_relative slash dot ((slash :: path).splitOn slash)
  rw [read,start_rooted,walked,up_rooted]
  exact ⟨_,rfl⟩

lemma clean_eq_iff (apart : slash ≠ dot) (first second : List α) :
    clean slash dot first = clean slash dot second ↔ read slash dot first = read slash dot second := by
  constructor
  · intro same
    simpa [clean,read_text apart] using congrArg (read slash dot) same
  · exact congrArg Place.text

lemma read_clean (apart : slash ≠ dot) (path : List α) : read slash dot (clean slash dot path) = read slash dot path :=
  read_text apart _

lemma read_nil : read slash dot [] = .relative 0 [] := by
  simp [read,start,walk]

lemma read_join (apart : slash ≠ dot) {base : List α} (full : base ≠ []) (path : List α) :
    read slash dot (join slash dot base path) = (read slash dot base).walk (path.splitOn slash) := by
  have head : (base ++ slash :: path).head? = base.head? := by
    obtain ⟨c,rest,rfl⟩ := exists_cons_of_ne_nil full
    rfl
  rw [join,if_neg full,read_clean apart,read,start,head,splitOn_append_cons_self,walk_append]
  rfl

lemma splitOn_append {first : List α} (free : slash ∉ first) (rest : List α) :
    (first ++ rest).splitOn slash = (rest.splitOn slash).modifyHead (first ++ ·) := by
  induction first with
  | nil =>
    rw [nil_append]
    cases List.splitOn slash rest <;> rfl
  | cons c first ih =>
    have other : (c == slash) = false := beq_false_of_ne (fun same => free (same ▸ mem_cons_self))
    rw [cons_append,splitOn_cons_eq_if_modifyHead,other,ih (fun inside => free (mem_cons_of_mem _ inside))]
    cases rest.splitOn slash <;> rfl

variable {front : List (List α)} {last : List α}

lemma splitOn_intercalate_append (free : ∀ element ∈ front ++ [last],slash ∉ element) (rest : List α) :
    ([slash].intercalate (front ++ [last]) ++ rest).splitOn slash =
      front ++ (rest.splitOn slash).modifyHead (last ++ ·) := by
  induction front with
  | nil =>
    rw [nil_append,intercalate_singleton]
    exact splitOn_append (free last (by simp)) rest
  | cons first front ih =>
    rw [cons_append,intercalate_cons_of_ne_nil (by simp),append_assoc,append_assoc,singleton_append]
    rw [splitOn_append_cons_self_of_not_mem (free first (by simp)),
      ih (fun element listed => free element (mem_cons_of_mem _ listed))]
    rfl

lemma intercalate_prefix_iff (free : ∀ element ∈ front ++ [last],slash ∉ element) (free' : ∀ element ∈ others,slash ∉ element) (full : last ≠ []) :
    [slash].intercalate (front ++ [last]) <+: [slash].intercalate others ↔
      ∃ extension rest,others = front ++ (last ++ extension) :: rest := by
  constructor
  · rintro ⟨tail,same⟩
    have parts := splitOn_intercalate_append free tail
    rw [same] at parts
    rcases others with _ | ⟨first,others⟩
    · -- nothing at all has no proper start
      have none : last = [] := by
        simp only [intercalate_nil,append_eq_nil_iff] at same
        rcases front with _ | ⟨first,front⟩
        · simpa using same.1
        · simp [intercalate_cons_of_ne_nil] at same
      exact absurd none full
    · rw [splitOn_intercalate slash free' (cons_ne_nil _ _)] at parts
      obtain ⟨extension,rest,cut⟩ := exists_cons_of_ne_nil (splitOn_ne_nil slash tail)
      exact ⟨extension,rest,by rw [parts,cut]; rfl⟩
  · rintro ⟨extension,rest,rfl⟩
    clear free free' full
    induction front with
    | nil =>
      rcases rest with _ | ⟨next,rest⟩
      · simp
      · simp [intercalate_cons_cons,append_assoc]
    | cons first front ih =>
      rw [cons_append,cons_append,intercalate_cons_of_ne_nil (by simp),
        intercalate_cons_of_ne_nil (by simp)]
      exact (prefix_append_right_inj _).mpr ih

lemma text_prefix_iff (apart : slash ≠ dot) (names others : List (Name slash dot)) :
    (rooted names).text <+: (rooted others).text ↔
      names <+: others ∨ Outgrown (names.map (·.val)) (others.map (·.val)) := by
  rw [text,text,cons_prefix_cons]
  simp only [true_and]
  rcases eq_nil_or_concat' names with rfl | ⟨front,last,rfl⟩
  · simp [elements]
  · have split : (rooted (front ++ [last])).elements = front.map (·.val) ++ [last.val] := map_append
    have listed := intercalate_prefix_iff (split ▸ elements_free (rooted (front ++ [last])) apart)
      (elements_free (rooted others) apart) last.property.2.1
    rw [split,listed,map_append]
    constructor
    · rintro ⟨extension,rest,whole⟩
      by_cases more : extension = []
      · left
        rw [← prefix_map_iff_of_injective Subtype.val_injective]
        exact ⟨rest,by simpa [more,elements] using whole.symm⟩
      · exact .inr ⟨_,_,extension,rest,rfl,whole,more⟩
    · rintro (⟨rest,rfl⟩ | ⟨before,name,extension,rest,same,whole,-⟩)
      · exact ⟨[],rest.map (·.val),by simp [elements]⟩
      · obtain ⟨rfl,same⟩ := append_inj' same rfl
        obtain rfl : last.val = name := by simpa using same
        exact ⟨extension,rest,whole⟩

lemma read_join_clean (apart : slash ≠ dot) {path : List α} {names : List (Name slash dot)}
    (down : read slash dot path = .relative 0 names) (base : List α) :
    read slash dot (join slash dot base (clean slash dot path)) = (read slash dot base).descend names := by
  have shown : clean slash dot path = (relative 0 names).text := congrArg Place.text down
  have full : clean slash dot path ≠ [] := by
    rw [shown,text]
    split
    · simp
    · intro none
      have nowhere := read_text apart (relative 0 names)
      rw [text,if_neg ‹_›,none,read_nil] at nowhere
      simp_all [elements]
  have walked : ∀ place : Place slash dot,place.walk ((clean slash dot path).splitOn slash) = place.descend names := by
    obtain ⟨ups,found,here,anywhere⟩ := walk_relative slash dot ((clean slash dot path).splitOn slash)
    have origin : start slash dot (clean slash dot path) = .relative 0 [] := by
      rw [start,if_neg]
      rw [shown,text]
      split
      · simpa using apart.symm
      · exact head_intercalate apart 0 names
    have back := (read_clean apart path).trans down
    rw [read,origin,here] at back
    cases back
    exact anywhere
  by_cases blank : base = []
  · rw [join,if_pos blank,if_neg full,read_clean apart,read_clean apart,down,blank]
    rfl
  · rw [read_join apart blank,walked]

end Paths
