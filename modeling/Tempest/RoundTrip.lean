import Mathlib.Data.List.Induction
import Tempest.Diff

/-! Applying the patch from one value to another. A changed member is written under its
key and a changed element under its index, so each of them has to be where the patch says
when its turn comes. -/
namespace Tempest.Deltadiff
open Association List

variable {src dst : Json} {i : Nat}

lemma itoa_digit {c : Char} (member : c ∈ itoa i) : c.isDigit = true :=
  Nat.isDigit_of_mem_toDigits (by decide) (by decide) member

lemma itoa_ne_nil : itoa i ≠ [] := Nat.toDigits_ne_nil

lemma digits_itoa : digits (itoa i) = some i := by
  rw [digits,if_pos ⟨itoa_ne_nil,all_eq_true.mpr (fun c member => itoa_digit member)⟩]
  exact congrArg some (Nat.ofDigitChars_toDigits (by decide) (by decide))

lemma atoi_itoa : atoi (itoa i) = some (i : Int) := by
  have value := digits_itoa (i := i)
  have digit : ∀ c ∈ itoa i,c.isDigit = true := fun c member => itoa_digit member
  cases text : itoa i with
  | nil => exact absurd text itoa_ne_nil
  | cons c rest =>
    rw [text] at value digit
    have first := digit c mem_cons_self
    rw [atoi.eq_def]
    split
    next same => cases same; cases first
    next same => cases same; cases first
    next => rw [value]; rfl

lemma index_itoa {n : Nat} (inside : i < n) : index (itoa i) n = some i := index_eq.mpr ⟨atoi_itoa,inside⟩

lemma clean_itoa : Clean (itoa i) := by
  have tilde : ∀ c, ¬ ['~',c] <:+: itoa i := by
    intro c inside
    cases itoa_digit (inside.subset mem_cons_self)
  refine ⟨?_,tilde '0',tilde '1'⟩
  intro member
  cases itoa_digit member

lemma itoa_ne_dash : itoa i ≠ ['-'] := by
  intro same
  cases itoa_digit (same ▸ mem_singleton.mpr rfl)

section Single

variable {members : List (Str × Json)} {items : List Json} {k : Str} {value : Json}

lemma run_add_member : (Edit.mk [k] (.add value)).run (.obj members) = .ok (.obj (put k value members)) := by
  simp [Edit.run,addValue,getValue,assign,bind,Except.bind]

lemma run_remove_member (found : find k members ≠ none) :
    (Edit.mk [k] .remove).run (.obj members) = .ok (.obj (erase k members)) := by
  simp [Edit.run,removeValue,getValue,assign,bind,Except.bind,found]

lemma run_replace (tokens : List Str) (target : Json) : (Edit.mk tokens (.replace value)).run target =
      (Edit.mk tokens .remove).run target >>= (Edit.mk tokens (.add value)).run := rfl

lemma run_replace_member (sorted : Sorted members) (found : find k members ≠ none) :
    (Edit.mk [k] (.replace value)).run (.obj members) = .ok (.obj (put k value members)) := by
  rw [run_replace,run_remove_member found,← put_erase sorted]
  exact run_add_member

lemma run_add_item (inside : i ≤ items.length) :
    (Edit.mk [itoa i] (.add value)).run (.arr items) = .ok (.arr (items.take i ++ value :: items.drop i)) := by
  simp [Edit.run,addValue,getValue,bind,Except.bind,itoa_ne_dash,index_itoa (Nat.lt_succ_of_le inside),
    updateSliceInParent]

lemma run_remove_item (inside : i < items.length) :
    (Edit.mk [itoa i] .remove).run (.arr items) = .ok (.arr (items.take i ++ items.drop (i + 1))) := by
  simp [Edit.run,removeValue,getValue,bind,Except.bind,index_itoa inside,updateSliceInParent]

lemma run_replace_item (inside : i < items.length) :
    (Edit.mk [itoa i] (.replace value)).run (.arr items) = .ok (.arr (items.set i value)) := by
  have short := length_take_of_le (Nat.le_of_lt inside)
  have room : i ≤ (items.take i ++ items.drop (i + 1)).length := by
    rw [length_append,short]
    exact Nat.le_add_right _ _
  have added : (Edit.mk [itoa i] (.add value)).run (.arr (items.take i ++ items.drop (i + 1))) = _ := run_add_item room
  rw [take_left' short,drop_left' short] at added
  rw [run_replace,run_remove_item inside,set_eq_take_append_cons_drop,if_pos inside]
  exact added

end Single

section Places

variable {a b : List (Str × Json)} {xs ys : List Json} {e : Edit}

lemma mem_removals (member : e ∈ removals a b) : ∃ k,k ∈ keys a ∧ find k b = none ∧ e = ⟨[k],.remove⟩ := by
  obtain ⟨k,key,here⟩ := mem_flatMap.mp member
  split_ifs at here with missing
  · exact ⟨k,key,missing,mem_singleton.mp here⟩
  · cases here

lemma mem_deltaMembers (member : e ∈ deltaMembers a b) : ∃ k w,(k,w) ∈ b ∧ (find k a = none ∧ e = ⟨[k],.add w⟩ ∨
      ∃ u inner,find k a = some u ∧ inner ∈ delta u w ∧ e = inner.under k) := by
  induction b with
  | nil => rw [deltaMembers] at member; cases member
  | cons entry rest ih =>
    obtain ⟨k,w⟩ := entry
    rcases mem_append.mp member with here | later
    · refine ⟨k,w,mem_cons_self,?_⟩
      cases old : find k a with
      | none =>
        rw [old] at here
        exact .inl ⟨rfl,mem_singleton.mp here⟩
      | some u =>
        rw [old] at here
        obtain ⟨inner,change,rfl⟩ := mem_map.mp here
        exact .inr ⟨u,inner,rfl,change,rfl⟩
    · obtain ⟨k,w,inside,change⟩ := ih later
      exact ⟨k,w,mem_cons_of_mem _ inside,change⟩

lemma mem_deltaItems (member : e ∈ deltaItems i xs ys) :
    ∃ j u w inner,(u,w) ∈ xs.zip ys ∧ inner ∈ delta u w ∧ e = inner.under (itoa j) := by
  induction ys generalizing i xs with
  | nil => rw [deltaItems] at member; cases member
  | cons w ys ih =>
    cases xs with
    | nil => rw [deltaItems] at member; cases member
    | cons u xs =>
      rcases mem_append.mp member with here | later
      · obtain ⟨inner,change,rfl⟩ := mem_map.mp here
        exact ⟨i,u,w,inner,mem_cons_self,change,rfl⟩
      · obtain ⟨j,u,w,inner,inside,change⟩ := ih later
        exact ⟨j,u,w,inner,mem_cons_of_mem _ inside,change⟩

lemma mem_grown (member : e ∈ grown xs ys ++ shrunk xs ys) : ∃ j,e.tokens = [itoa j] := by
  rcases mem_append.mp member with more | less
  · obtain ⟨j,-,rfl⟩ := mem_map.mp more
    exact ⟨j,rfl⟩
  · obtain ⟨j,-,rfl⟩ := mem_map.mp less
    exact ⟨j,rfl⟩

lemma tokens_ne_nil (changed : src ≠ dst) (kind : sameKind src dst = true) :
    ∀ e ∈ delta src dst,e.tokens ≠ [] := by
  intro e member
  cases src with
  | obj a =>
    cases dst with
    | obj b =>
      rw [delta_obj (fun same => changed (congrArg Json.obj same))] at member
      rcases mem_append.mp member with gone | kept
      · obtain ⟨k,-,-,rfl⟩ := mem_removals gone
        exact cons_ne_nil _ _
      · obtain ⟨k,w,-,⟨-,rfl⟩ | ⟨u,inner,-,-,rfl⟩⟩ := mem_deltaMembers kept
        all_goals exact cons_ne_nil _ _
    | _ => cases kind
  | arr xs =>
    cases dst with
    | arr ys =>
      rw [delta_arr (fun same => changed (congrArg Json.arr same))] at member
      rcases mem_append.mp member with common | rest
      · obtain ⟨j,u,w,inner,-,-,rfl⟩ := mem_deltaItems common
        exact cons_ne_nil _ _
      · obtain ⟨j,single⟩ := mem_grown rest
        rw [single]
        exact cons_ne_nil _ _
    | _ => cases kind
  | _ => cases kind

lemma changed_of_mem (member : e ∈ delta src dst) : src ≠ dst := by
  rintro rfl
  rw [delta_self] at member
  cases member

lemma tokens_eq_nil (kind : sameKind src dst = false) : ∀ e ∈ delta src dst,e.tokens = [] := by
  intro e member
  have changed := changed_of_mem member
  by_cases null : src = .null
  · rw [null] at member changed
    rw [delta_add (Ne.symm changed)] at member
    rw [mem_singleton.mp member]
  · by_cases gone : dst = .null
    · rw [gone,delta_remove null] at member
      rw [mem_singleton.mp member]
    · rw [delta_replace changed null gone kind] at member
      rw [mem_singleton.mp member]

end Places

lemma runAll_single (target : Json) (e : Edit) : runAll target [e] = e.run target := by
  exact bind_pure _

lemma runAll_child {node : Json} {tok : Str} (found : child node tok = .ok src) (same : setChild node tok src = node)
    (replaced : (Edit.mk [tok] (.replace dst)).run node = .ok (setChild node tok dst))
    (added : src = .null → (Edit.mk [tok] (.add dst)).run node = .ok (setChild node tok dst))
    (some : src ≠ dst → dst ≠ .null) (ok : src ≠ dst → runAll src (delta src dst) = .ok dst) :
    runAll node ((delta src dst).map (Edit.under tok)) = .ok (setChild node tok dst) := by
  by_cases equal : src = dst
  · rw [← equal,delta_self,same]
    rfl
  · cases kind : sameKind src dst with
    | true =>
      have outer : src ≠ .null := by
        rintro rfl
        cases kind
      exact runAll_under found outer (tokens_ne_nil equal kind) (ok equal) same
    | false =>
      by_cases null : src = .null
      · rw [null,delta_add (some equal),map_singleton,runAll_single]
        exact added null
      · rw [delta_replace equal null (some equal) kind,map_singleton,runAll_single]
        exact replaced

variable {u w : Json}

section Members

variable {a b m : List (Str × Json)}

lemma run_removals (sorted : Sorted m) {ks : List Str} (distinct : ks.Nodup) (there : ∀ k ∈ ks,find k m ≠ none) :
    ∃ left,runAll (.obj m) (ks.flatMap (fun k => if find k b = none then [⟨[k],.remove⟩] else [])) = .ok (.obj left) ∧
      Sorted left ∧ ∀ k,find k left = if k ∈ ks ∧ find k b = none then none else find k m := by
  induction ks generalizing m with
  | nil => exact ⟨m,rfl,sorted,fun k => by simp⟩
  | cons first ks ih =>
    obtain ⟨fresh,distinct⟩ := nodup_cons.mp distinct
    obtain ⟨here,later⟩ := forall_mem_cons.mp there
    rw [flatMap_cons]
    split_ifs with missing
    · have rest : ∀ k ∈ ks,find k (erase first m) ≠ none := by
        intro k member
        have other : k ≠ first := by
          rintro rfl
          exact fresh member
        rw [find_erase,if_neg other]
        exact later k member
      obtain ⟨left,ok,sorted',found⟩ := ih sorted.erase distinct rest
      refine ⟨left,?_,sorted',?_⟩
      · rw [singleton_append,runAll_cons,run_remove_member here]
        exact ok
      · intro k
        rw [found,find_erase]
        grind
    · obtain ⟨left,ok,sorted',found⟩ := ih sorted distinct later
      refine ⟨left,ok,sorted',?_⟩
      intro k
      grind

lemma run_member (sorted : Sorted m) {k : Str} (found : find k m = some u)
    (changed : u ≠ w → w ≠ .null ∧ runAll u (delta u w) = .ok w) :
    runAll (.obj m) ((delta u w).map (Edit.under k)) = .ok (.obj (put k w m)) := by
  have there : find k m ≠ none := by
    rw [found]
    exact Option.some_ne_none u
  apply runAll_child (child_obj found)
  · rw [setChild,put_of_find sorted found]
  · exact run_replace_member sorted there
  · exact fun _ => run_add_member
  · exact fun different => (changed different).1
  · exact fun different => (changed different).2

lemma run_members (sorted : Sorted m) (sorted' : Sorted b) (same : ∀ k ∈ keys b,find k m = find k a)
    (changed : ∀ k u w,find k a = some u → (k,w) ∈ b → u ≠ w → w ≠ .null ∧ runAll u (delta u w) = .ok w) :
    ∃ left,runAll (.obj m) (deltaMembers a b) = .ok (.obj left) ∧ Sorted left ∧
      ∀ k,find k left = (find k b).or (find k m) := by
  induction b generalizing m with
  | nil =>
    exact ⟨m,rfl,sorted,fun k => rfl⟩
  | cons entry rest ih =>
    obtain ⟨k,w⟩ := entry
    obtain ⟨least,tail⟩ := pairwise_cons.mp sorted'
    have unlisted : k ∉ keys rest := by
      intro member
      obtain ⟨other,inside,equal⟩ := mem_map.mp member
      exact lt_irrefl k (equal ▸ least other inside)
    have here := same k mem_cons_self
    obtain ⟨first,split,step⟩ : ∃ first,deltaMembers a ((k,w) :: rest) = first ++ deltaMembers a rest ∧
        runAll (.obj m) first = .ok (.obj (put k w m)) := by
      rw [deltaMembers]
      cases old : find k a with
      | none => exact ⟨_,rfl,(runAll_single _ _).trans run_add_member⟩
      | some u =>
        rw [old] at here
        exact ⟨_,rfl,run_member sorted here (changed k u w old mem_cons_self)⟩
    have untouched : ∀ k' ∈ keys rest,find k' (put k w m) = find k' a := by
      intro k' member
      have other : k' ≠ k := by
        rintro rfl
        exact unlisted member
      rw [find_put,if_neg other]
      exact same k' (mem_cons_of_mem _ member)
    obtain ⟨left,ok,sortedLeft,found⟩ := ih sorted.put tail untouched
      (fun k u w old inside => changed k u w old (mem_cons_of_mem _ inside))
    refine ⟨left,?_,sortedLeft,?_⟩
    · rw [split,runAll_append step]
      exact ok
    · intro k'
      rw [found,find_put,find_cons]
      by_cases equal : k' = k
      · rw [equal,find_eq_none.mpr unlisted,if_pos rfl,if_pos rfl]
        rfl
      · rw [if_neg equal,if_neg (Ne.symm equal)]

lemma run_object (sorted : Sorted a) (sorted' : Sorted b)
    (changed : ∀ k u w,find k a = some u → (k,w) ∈ b → u ≠ w → w ≠ .null ∧ runAll u (delta u w) = .ok w) :
    runAll (.obj a) (removals a b ++ deltaMembers a b) = .ok (.obj b) := by
  have there : ∀ k ∈ keys a,find k a ≠ none := fun k member none => find_eq_none.mp none member
  obtain ⟨middle,gone,sortedMiddle,kept⟩ := run_removals sorted (sorted.keys.imp ne_of_lt) there
  have same : ∀ k ∈ keys b,find k middle = find k a := by
    intro k member
    rw [kept,if_neg (fun both => find_eq_none.mp both.2 member)]
  obtain ⟨left,ok,sortedLeft,found⟩ := run_members sortedMiddle sorted' same changed
  have equal : left = b := by
    apply sortedLeft.ext sorted'
    intro k
    rw [found]
    cases new : find k b with
    | some w => rfl
    | none =>
      rw [kept]
      split_ifs with both
      · rfl
      · exact find_eq_none.mpr (fun member => both ⟨member,new⟩)
  rw [removals,runAll_append gone,ok,equal]

end Members

section Items

variable {xs ys : List Json}

lemma run_item {done : List Json} (changed : u ≠ w → u ≠ .null ∧ w ≠ .null ∧ runAll u (delta u w) = .ok w) :
    runAll (.arr (done ++ u :: xs)) ((delta u w).map (Edit.under (itoa done.length))) = .ok (.arr (done ++ w :: xs)) := by
  have inside : done.length < (done ++ u :: xs).length := by
    rw [length_append,length_cons]
    omega
  have place := index_itoa inside
  have found : child (.arr (done ++ u :: xs)) (itoa done.length) = .ok u :=
    child_arr.mpr ⟨_,place,by simp⟩
  have set : ∀ v,setChild (.arr (done ++ u :: xs)) (itoa done.length) v = .arr (done ++ v :: xs) := by
    intro v
    rw [setChild,place]
    simp
  rw [← set w]
  by_cases equal : u = w
  · rw [← equal,delta_self,set]
    rfl
  · obtain ⟨old,new,ok⟩ := changed equal
    apply runAll_child found (set u)
    · rw [run_replace_item inside,set]
      simp
    · exact fun null => absurd null old
    · exact fun _ => new
    · exact fun _ => ok

lemma run_items (done : List Json)
    (changed : ∀ u w,(u,w) ∈ xs.zip ys → u ≠ w → u ≠ .null ∧ w ≠ .null ∧ runAll u (delta u w) = .ok w) :
    runAll (.arr (done ++ xs)) (deltaItems done.length xs ys) =
      .ok (.arr (done ++ (ys.take xs.length ++ xs.drop ys.length))) := by
  induction ys generalizing xs done with
  | nil =>
    rw [deltaItems]
    simp [runAll_nil]
  | cons w ys ih =>
    cases xs with
    | nil =>
      rw [deltaItems]
      simp [runAll_nil]
    | cons u xs =>
      have step : runAll (.arr (done ++ u :: xs)) ((delta u w).map (Edit.under (itoa done.length))) =
          .ok (.arr (done ++ w :: xs)) := run_item (changed u w mem_cons_self)
      have rest := ih (done ++ [w]) (fun u w inside => changed u w (mem_cons_of_mem _ inside))
      rw [length_append] at rest
      rw [deltaItems,runAll_append step]
      simpa using rest

lemma run_grown {count : Nat} (size : xs.length + count = ys.length) (same : ys.take xs.length = xs) :
    runAll (.arr xs) ((List.range' xs.length count).map (fun i => ⟨[itoa i],.add (ys[i]?.getD .null)⟩)) =
      .ok (.arr ys) := by
  induction count generalizing xs with
  | zero =>
    rw [← same,take_of_length_le (by omega)]
    rfl
  | succ count ih =>
    have inside : xs.length < ys.length := by omega
    have next : ys.take (xs.length + 1) = xs ++ [ys[xs.length]] := by
      rw [take_add_one,same,getElem?_eq_getElem inside]
      rfl
    have length : (xs ++ [ys[xs.length]]).length = xs.length + 1 := length_append
    have grows := ih (length ▸ (by omega)) (length.symm ▸ next)
    rw [length] at grows
    rw [range'_succ,map_cons,runAll_cons,run_add_item (Nat.le_refl _),take_length,drop_length,
      getElem?_eq_getElem inside]
    exact grows

lemma run_shrunk (rest : List Json) :
    runAll (.arr (ys ++ rest)) ((List.range' ys.length rest.length).reverse.map (fun i => ⟨[itoa i],.remove⟩)) =
      .ok (.arr ys) := by
  induction rest using List.reverseRecOn with
  | nil =>
    rw [append_nil]
    rfl
  | append_singleton rest last ih =>
    have inside : ys.length + rest.length < (ys ++ (rest ++ [last])).length := by
      simp only [length_append,length_singleton]
      omega
    have cut : (ys ++ (rest ++ [last])).take (ys.length + rest.length) ++
        (ys ++ (rest ++ [last])).drop (ys.length + rest.length + 1) = ys ++ rest := by
      have whole : (ys ++ rest ++ [last]).length ≤ ys.length + rest.length + 1 := by
        rw [length_append,length_append,length_singleton]
      rw [← append_assoc,take_left' length_append,drop_of_length_le whole,append_nil]
    rw [length_append,length_singleton,range'_concat,reverse_append,reverse_singleton,
      singleton_append,map_cons,runAll_cons,Nat.one_mul,run_remove_item inside,cut]
    exact ih

lemma run_array (changed : ∀ u w,(u,w) ∈ xs.zip ys → u ≠ w → u ≠ .null ∧ w ≠ .null ∧ runAll u (delta u w) = .ok w) :
    runAll (.arr xs) (deltaItems 0 xs ys ++ (grown xs ys ++ shrunk xs ys)) = .ok (.arr ys) := by
  have common := run_items [] changed
  rw [nil_append,nil_append,length_nil] at common
  rw [runAll_append common]
  rcases Nat.le_total xs.length ys.length with short | long
  · have length := length_take_of_le short
    have grows : runAll (.arr (ys.take xs.length)) (grown xs ys) = .ok (.arr ys) := by
      have size : (ys.take xs.length).length + (ys.length - xs.length) = ys.length := by omega
      have added := run_grown size (by rw [length])
      rw [length] at added
      exact added
    rw [drop_of_length_le short,append_nil,runAll_append grows,shrunk,Nat.sub_eq_zero_of_le short]
    rfl
  · rw [take_of_length_le long,grown,Nat.sub_eq_zero_of_le long,shrunk,← length_drop]
    exact run_shrunk (xs.drop ys.length)

end Items

/-- Every key under which something changes stands for itself in a pointer, no member
changes to null, and no element changes from or to null. -/
inductive Plain : Json → Json → Prop
  | same (j : Json) : Plain j j
  | obj (a b : List (Str × Json)) (clean : ∀ k, find k a ≠ find k b → Clean k)
      (kept : ∀ k u w, find k a = some u → find k b = some w → u ≠ w → w ≠ .null)
      (inner : ∀ k u w, find k a = some u → find k b = some w → u ≠ w → Plain u w) : Plain (.obj a) (.obj b)
  | arr (xs ys : List Json) (kept : ∀ u w, (u,w) ∈ xs.zip ys → u ≠ w → u ≠ .null ∧ w ≠ .null)
      (inner : ∀ u w, (u,w) ∈ xs.zip ys → u ≠ w → Plain u w) : Plain (.arr xs) (.arr ys)
  | other (u w : Json) (kind : sameKind u w = false) : Plain u w

lemma Plain.runAll (plain : Plain src dst) (formed : src.WellFormed) (formed' : dst.WellFormed) :
    runAll src (delta src dst) = .ok dst := by
  induction plain with
  | same j =>
    rw [delta_self]
    rfl
  | obj a b clean kept inner ih =>
    by_cases equal : a = b
    · rw [equal,delta_self]
      rfl
    · cases formed with
      | obj _ sorted old =>
        cases formed' with
        | obj _ sorted' new =>
          rw [delta_obj equal]
          apply run_object sorted sorted'
          intro k u w found member changed
          have found' := find_of_mem sorted' member
          exact ⟨kept k u w found found' changed,
            ih k u w found found' changed (old _ (mem_of_find found)) (new _ member)⟩
  | arr xs ys kept inner ih =>
    by_cases equal : xs = ys
    · rw [equal,delta_self]
      rfl
    · cases formed with
      | arr _ old =>
        cases formed' with
        | arr _ new =>
          rw [delta_arr equal]
          apply run_array
          intro u w member changed
          obtain ⟨left,right⟩ := of_mem_zip member
          obtain ⟨before,after⟩ := kept u w member changed
          exact ⟨before,after,ih u w member changed (old u left) (new w right)⟩
  | other u w kind =>
    by_cases equal : u = w
    · rw [equal,delta_self]
      rfl
    · by_cases null : u = .null
      · rw [null] at equal ⊢
        rw [delta_add (Ne.symm equal)]
        rfl
      · by_cases gone : w = .null
        · rw [gone,delta_remove null]
          rfl
        · rw [delta_replace equal null gone kind]
          rfl

lemma Plain.clean (plain : Plain src dst) (formed : dst.WellFormed) :
    ∀ e ∈ delta src dst,∀ tok ∈ e.tokens,Clean tok := by
  induction plain with
  | same j =>
    intro e member
    exact absurd rfl (changed_of_mem member)
  | obj a b clean kept inner ih =>
    intro e member
    cases formed with
    | obj _ sorted new =>
      rw [delta_obj (fun same => changed_of_mem member (congrArg Json.obj same))] at member
      rcases mem_append.mp member with gone | left
      · obtain ⟨k,key,missing,rfl⟩ := mem_removals gone
        have differs : find k a ≠ find k b := by
          rw [missing]
          exact fun none => find_eq_none.mp none key
        exact forall_mem_singleton.mpr (clean k differs)
      · obtain ⟨k,w,inside,⟨absent,rfl⟩ | ⟨u,change,old,below,rfl⟩⟩ := mem_deltaMembers left
        · have found := find_of_mem sorted inside
          have differs : find k a ≠ find k b := by
            rw [absent,found]
            exact Option.some_ne_none w ∘ Eq.symm
          exact forall_mem_singleton.mpr (clean k differs)
        · have found := find_of_mem sorted inside
          have changed := changed_of_mem below
          have differs : find k a ≠ find k b := by
            rw [old,found]
            exact fun same => changed (Option.some.inj same)
          exact forall_mem_cons.mpr ⟨clean k differs,ih k u w old found changed (new _ inside) change below⟩
  | arr xs ys kept inner ih =>
    intro e member
    cases formed with
    | arr _ new =>
      rw [delta_arr (fun same => changed_of_mem member (congrArg Json.arr same))] at member
      rcases mem_append.mp member with common | rest
      · obtain ⟨j,u,w,change,inside,below,rfl⟩ := mem_deltaItems common
        have later := ih u w inside (changed_of_mem below) (new w (of_mem_zip inside).2) change below
        exact forall_mem_cons.mpr ⟨clean_itoa,later⟩
      · obtain ⟨j,single⟩ := mem_grown rest
        rw [single]
        exact forall_mem_singleton.mpr clean_itoa
  | other u w kind =>
    intro e member
    rw [tokens_eq_nil kind e member]
    exact forall_mem_nil _

/-- Where every key under which something changes stands for itself in a pointer, no
member changes to null and no element changes from or to null, the patch leads to the new
value, whatever the orders in which the maps are ranged over. -/
theorem apply_diff_of_plain (ranges : Ranges) (src dst : Value) (plain : Plain src.1 dst.1) :
    apply src.1 (diff ranges src.1 dst.1) = .ok dst.1 := by
  rw [diff_render src.2 dst.2]
  exact applyFrom_render (plain.clean dst.2) (plain.runAll src.2 dst.2) 0

-- The condition on elements is not necessary: here one shift makes up for the other.
example : runAll (.arr [.num 1,.null]) (delta (.arr [.num 1,.null]) (.arr [.null,.num 2])) = .ok (.arr [.null,.num 2]) := by
  rfl

private def backwards : Ranges where
  src := fun _ ks => ks.reverse
  dst := fun _ ks => ks.reverse
  src_perm := fun _ ks => List.reverse_perm ks
  dst_perm := fun _ ks => List.reverse_perm ks

private def numbers (ns : List Int) : Json := .arr (ns.map .num)

private lemma numbers_formed (ns : List Int) : (numbers ns).WellFormed := by
  apply Json.WellFormed.arr
  intro j member
  obtain ⟨n,-,rfl⟩ := mem_map.mp member
  exact .num n

private lemma single_formed (k : Str) {j : Json} (formed : j.WellFormed) : (Json.obj [(k,j)]).WellFormed :=
  .obj _ (pairwise_singleton _ _) (forall_mem_singleton.mpr formed)

private lemma numbers_plain (ms ns : List Int) : Plain (numbers ms) (numbers ns) := by
  have both : ∀ u w,(u,w) ∈ (ms.map Json.num).zip (ns.map Json.num) → ∃ m n,u = .num m ∧ w = .num n := by
    intro u w member
    obtain ⟨left,right⟩ := of_mem_zip member
    obtain ⟨m,-,rfl⟩ := mem_map.mp left
    obtain ⟨n,-,rfl⟩ := mem_map.mp right
    exact ⟨m,n,rfl,rfl⟩
  apply Plain.arr
  · intro u w member _
    obtain ⟨m,n,rfl,rfl⟩ := both u w member
    exact ⟨Json.noConfusion,Json.noConfusion⟩
  · intro u w member _
    obtain ⟨m,n,rfl,rfl⟩ := both u w member
    exact .other _ _ rfl

private lemma single_plain {k : Str} (clean : Clean k) (new : w ≠ .null) (plain : Plain u w) :
    Plain (.obj [(k,u)]) (.obj [(k,w)]) := by
  have only : ∀ k' (j v : Json),find k' [(k,j)] = some v → j = v := by
    intro k' j v found
    exact (congrArg Prod.snd (mem_singleton.mp (mem_of_find found))).symm
  apply Plain.obj
  · intro k' differs
    by_cases same : k = k'
    · exact same ▸ clean
    · exact absurd (by rw [find_cons,find_cons,if_neg same,if_neg same]) differs
  · intro k' u' w' _ found _
    exact only k' w w' found ▸ new
  · intro k' u' w' found found' _
    exact only k' u u' found ▸ only k' w w' found' ▸ plain

/-- An element is replaced and one is added below a member. -/
theorem list_under_key :
    let src : Value := ⟨.obj [(['a'],numbers [1,2])],single_formed _ (numbers_formed _)⟩
    let dst : Value := ⟨.obj [(['a'],numbers [1,3,4])],single_formed _ (numbers_formed _)⟩
    apply src.1 (diff backwards src.1 dst.1) = .ok dst.1 := by
  intro src dst
  apply apply_diff_of_plain backwards src dst
  exact single_plain (by decide) Json.noConfusion (numbers_plain _ _)

/-- A member that becomes null is removed, a key with a slash is not found, and an element
that was null is kept behind the new one. -/
theorem null_and_slash_lost :
    apply (.obj [(['a'],.num 1)]) (diff backwards (.obj [(['a'],.num 1)]) (.obj [(['a'],.null)])) = .ok (.obj []) ∧
      apply (.obj []) (diff backwards (.obj []) (.obj [(['a','/','b'],.num 1)])) =
        .error ⟨0,.add,['/','a','/','b'],.keyMissing ['a']⟩ ∧
      apply (.arr [.null]) (diff backwards (.arr [.null]) (.arr [.num 1])) = .ok (.arr [.num 1,.null]) := by
  have empty : (Json.obj []).WellFormed := .obj [] List.Pairwise.nil (forall_mem_nil _)
  have element : ∀ j : Json,j.WellFormed → (Json.arr [j]).WellFormed :=
    fun j formed => .arr _ (forall_mem_singleton.mpr formed)
  rw [diff_render empty (single_formed _ (.num 1))]
  decide +kernel

end Tempest.Deltadiff
