import Tempest.Edits

/-! The patch from one value to another. Maps are ranged over in any order, and their keys
are sorted before they are used, so the patch is the same for all orders. -/
namespace Tempest.Deltadiff
open Association List

/-- The orders in which the maps at each place are ranged over. -/
structure Ranges where
  src : List Str → List Str → List Str
  dst : List Str → List Str → List Str
  src_perm : ∀ place keys, (src place keys).Perm keys
  dst_perm : ∀ place keys, (dst place keys).Perm keys

def itoa (i : Nat) : Str := Nat.toDigits 10 i

lemma size_member {members : List (Str × Json)} {key : Str} {value : Json} (found : find key members = some value) :
    sizeOf value < sizeOf members := by
  have less := sizeOf_lt_of_mem (mem_of_find found)
  simp only [Prod.mk.sizeOf_spec] at less
  omega

lemma size_item {items : List Json} {i : Nat} {item : Json} (found : items[i]? = some item) :
    sizeOf item < sizeOf items := sizeOf_lt_of_mem (mem_of_getElem? found)

variable (ranges : Ranges)

mutual

/-- The patch below a path. The place is the path by its tokens; it only tells apart the
maps that are ranged over. -/
def diffRecursive (place : List Str) (path : Str) (src dst : Json) : Patch :=
  if src = dst then []
  else
    match src, dst with
    | .null, dst => [⟨.add,path,[],dst⟩]
    | _, .null => [⟨.remove,path,[],.null⟩]
    | .obj src, .obj dst => diffMaps place path src dst
    | .arr src, .arr dst => diffSlices place path src dst
    | _, dst => [⟨.replace,path,[],dst⟩]
termination_by sizeOf dst

def diffMaps (place : List Str) (path : Str) (src dst : List (Str × Json)) : Patch :=
  ((ranges.src place (keys src)).insertionSort (· ≤ ·)).flatMap (fun k =>
    if find k dst = none then [⟨.remove,path ++ '/' :: k,[],.null⟩] else []) ++
  ((ranges.dst place (keys dst)).insertionSort (· ≤ ·)).flatMap (fun k =>
    match _found : find k dst with
    | none => []
    | some dstVal =>
      match find k src with
      | none => [⟨.add,path ++ '/' :: k,[],dstVal⟩]
      | some srcVal => diffRecursive (place ++ [k]) (path ++ '/' :: k) srcVal dstVal)
termination_by sizeOf dst
decreasing_by exact size_member _found

def diffSlices (place : List Str) (path : Str) (src dst : List Json) : Patch :=
  (List.range (min src.length dst.length)).flatMap (fun i =>
    match src[i]?, _found : dst[i]? with
    | some srcVal, some dstVal => diffRecursive (place ++ [itoa i]) (path ++ '/' :: itoa i) srcVal dstVal
    | _, _ => []) ++
  (List.range' src.length (dst.length - src.length)).map (fun i =>
    ⟨.add,path ++ '/' :: itoa i,[],dst[i]?.getD .null⟩) ++
  (List.range' dst.length (src.length - dst.length)).reverse.map (fun i => ⟨.remove,path ++ '/' :: itoa i,[],.null⟩)
termination_by sizeOf dst
decreasing_by exact size_item _found

end

def diff (src dst : Json) : Patch := diffRecursive ranges [] [] src dst

def removals (src dst : List (Str × Json)) : List Edit :=
  (keys src).flatMap (fun k => if find k dst = none then [⟨[k],.remove⟩] else [])

def grown (src dst : List Json) : List Edit :=
  (List.range' src.length (dst.length - src.length)).map (fun i => ⟨[itoa i],.add (dst[i]?.getD .null)⟩)

def shrunk (src dst : List Json) : List Edit :=
  (List.range' dst.length (src.length - dst.length)).reverse.map (fun i => ⟨[itoa i],.remove⟩)

mutual

def delta (src : Json) : Json → List Edit
  | .null => if src = .null then [] else [⟨[],.remove⟩]
  | .obj dst =>
    if src = .obj dst then []
    else
      match src with
      | .null => [⟨[],.add (.obj dst)⟩]
      | .obj src => removals src dst ++ deltaMembers src dst
      | _ => [⟨[],.replace (.obj dst)⟩]
  | .arr dst =>
    if src = .arr dst then []
    else
      match src with
      | .null => [⟨[],.add (.arr dst)⟩]
      | .arr src => deltaItems 0 src dst ++ (grown src dst ++ shrunk src dst)
      | _ => [⟨[],.replace (.arr dst)⟩]
  | dst => if src = dst then [] else if src = .null then [⟨[],.add dst⟩] else [⟨[],.replace dst⟩]

def deltaMembers (src : List (Str × Json)) : List (Str × Json) → List Edit
  | [] => []
  | (k,dstVal) :: rest =>
    (match find k src with
      | none => [⟨[k],.add dstVal⟩]
      | some srcVal => (delta srcVal dstVal).map (Edit.under k)) ++ deltaMembers src rest

def deltaItems (i : Nat) (src : List Json) : List Json → List Edit
  | [] => []
  | dstVal :: rest =>
    match src with
    | [] => []
    | srcVal :: others => (delta srcVal dstVal).map (Edit.under (itoa i)) ++ deltaItems (i + 1) others rest

end

lemma delta_eq (src dst : Json) : delta src dst =
    if src = dst then []
    else
      match src,dst with
      | .null,dst => [⟨[],.add dst⟩]
      | _,.null => [⟨[],.remove⟩]
      | .obj src,.obj dst => removals src dst ++ deltaMembers src dst
      | .arr src,.arr dst => deltaItems 0 src dst ++ (grown src dst ++ shrunk src dst)
      | _,dst => [⟨[],.replace dst⟩] := by
  cases dst <;> cases src <;> simp [delta]

lemma delta_self (j : Json) : delta j j = [] := by
  rw [delta_eq,if_pos rfl]

def sameKind : Json → Json → Bool
  | .obj _, .obj _ => true
  | .arr _, .arr _ => true
  | _, _ => false

variable {dst src : Json}

lemma delta_add (some : dst ≠ .null) : delta .null dst = [⟨[],.add dst⟩] := by
  rw [delta_eq,if_neg some.symm]

lemma delta_remove (some : src ≠ .null) : delta src .null = [⟨[],.remove⟩] := by
  rw [delta_eq]
  cases src <;> trivial

lemma delta_replace (changed : src ≠ dst) (old : src ≠ .null) (new : dst ≠ .null)
    (kind : sameKind src dst = false) : delta src dst = [⟨[],.replace dst⟩] := by
  rw [delta_eq,if_neg changed]
  cases dst <;> cases src <;> trivial

lemma delta_obj {src dst : List (Str × Json)} (changed : src ≠ dst) :
    delta (.obj src) (.obj dst) = removals src dst ++ deltaMembers src dst := by
  rw [delta_eq,if_neg (fun same => changed (Json.obj.inj same))]

lemma delta_arr {src dst : List Json} (changed : src ≠ dst) :
    delta (.arr src) (.arr dst) = deltaItems 0 src dst ++ (grown src dst ++ shrunk src dst) := by
  rw [delta_eq,if_neg (fun same => changed (Json.arr.inj same))]

lemma render_under (path k : Str) (e : Edit) : (e.under k).render path = e.render (path ++ '/' :: k) := by
  obtain ⟨tokens,change⟩ := e
  cases change <;> simp [Edit.under,Edit.render,pointer]

lemma map_render_under (path k : Str) (edits : List Edit) :
    (edits.map (Edit.under k)).map (Edit.render path) = edits.map (Edit.render (path ++ '/' :: k)) := by
  rw [map_map]
  exact map_congr_left (fun e _ => render_under path k e)

lemma pointer_single (k : Str) : pointer [k] = '/' :: k := append_nil _

variable {ranges} {place : List Str} {path : Str}

lemma diffMaps_render {src dst : List (Str × Json)} (sorted : Sorted src) (sorted' : Sorted dst)
    (inner : ∀ k srcVal dstVal,find k src = some srcVal → find k dst = some dstVal → ∀ place path,
      diffRecursive ranges place path srcVal dstVal = (delta srcVal dstVal).map (Edit.render path)) :
    diffMaps ranges place path src dst = (removals src dst ++ deltaMembers src dst).map (Edit.render path) := by
  rw [diffMaps,sort_keys sorted (ranges.src_perm place _),sort_keys sorted' (ranges.dst_perm place _),map_append]
  congr 1
  · rw [removals,map_flatMap]
    congr 1
    funext k
    split_ifs
    · rw [map_singleton,Edit.render,pointer_single]
    · rfl
  · -- over the members that are left
    have rest : ∀ part,(∀ k v,(k,v) ∈ part → find k dst = some v) →
        (keys part).flatMap (fun k =>
          match _found : find k dst with
          | none => []
          | some dstVal =>
            match find k src with
            | none => [⟨.add,path ++ '/' :: k,[],dstVal⟩]
            | some srcVal => diffRecursive ranges (place ++ [k]) (path ++ '/' :: k) srcVal dstVal) =
          (deltaMembers src part).map (Edit.render path) := by
      intro part members
      induction part with
      | nil => rw [deltaMembers]; rfl
      | cons entry part ih =>
        obtain ⟨k,v⟩ := entry
        have here := members k v mem_cons_self
        rw [Association.keys,map_cons,flatMap_cons,← Association.keys,ih (fun k v later => members k v (mem_cons_of_mem _ later)),
          deltaMembers,map_append]
        congr 1
        split
        next absent => rw [here] at absent; cases absent
        next dstVal found =>
          rw [here] at found
          cases found
          cases old : find k src with
          | none => rw [map_singleton,Edit.render,pointer_single]
          | some srcVal =>
            rw [map_render_under]
            exact inner k srcVal v old here _ _
    exact rest dst (fun k v member => find_of_mem sorted' member)

lemma diffSlices_render {src dst : List Json}
    (inner : ∀ (i : Nat) srcVal dstVal,src[i]? = some srcVal → dst[i]? = some dstVal → ∀ place path,
      diffRecursive ranges place path srcVal dstVal = (delta srcVal dstVal).map (Edit.render path)) :
    diffSlices ranges place path src dst =
      (deltaItems 0 src dst ++ (grown src dst ++ shrunk src dst)).map (Edit.render path) := by
  have single := fun k => congrArg (path ++ ·) (pointer_single k)
  rw [diffSlices,map_append,map_append,append_assoc,grown,shrunk,map_map,map_map]
  congr 1
  · -- over the elements from a position on
    have rest : ∀ (left right) i,src.drop i = left → dst.drop i = right →
        (List.range' i (min left.length right.length)).flatMap (fun i =>
          match src[i]?,_found : dst[i]? with
          | some srcVal, some dstVal => diffRecursive ranges (place ++ [itoa i]) (path ++ '/' :: itoa i) srcVal dstVal
          | _,_ => []) = (deltaItems i left right).map (Edit.render path) := by
      intro left right
      induction right generalizing left with
      | nil => intro i _ _; rw [length_nil,Nat.min_zero]; rfl
      | cons dstVal right ih =>
        intro i old new
        cases left with
        | nil => rw [length_nil,Nat.zero_min]; rfl
        | cons srcVal left =>
          have oldHead : src[i]? = some srcVal := by
            rw [← Nat.add_zero i,← getElem?_drop,old]
            rfl
          have newHead : dst[i]? = some dstVal := by
            rw [← Nat.add_zero i,← getElem?_drop,new]
            rfl
          have oldRest : src.drop (i + 1) = left := by rw [← tail_drop,old,tail_cons]
          have newRest : dst.drop (i + 1) = right := by rw [← tail_drop,new,tail_cons]
          rw [length_cons,length_cons,Nat.succ_min_succ,range'_succ,flatMap_cons,
            ih left (i + 1) oldRest newRest,deltaItems,map_append,map_render_under]
          congr 1
          split
          next _ u w left right =>
            rw [oldHead] at left
            rw [newHead] at right
            cases left
            cases right
            exact inner i srcVal dstVal oldHead newHead _ _
          next absent => exact absurd newHead (absent srcVal dstVal oldHead)
    rw [range_eq_range']
    exact rest src dst 0 rfl rfl
  · congr 1
    all_goals
      apply map_congr_left
      intro i _
      rw [Function.comp_apply,Edit.render,single]

lemma diffRecursive_render (formed : src.WellFormed) (formed' : dst.WellFormed) :
    diffRecursive ranges place path src dst = (delta src dst).map (Edit.render path) := by
  induction formed' generalizing src place path with
  | obj dst sorted' inner' ih =>
    rw [diffRecursive.eq_def]
    split_ifs with same
    · rw [same,delta_self]
      rfl
    · cases formed with
      | obj src sorted inner =>
        rw [delta_obj (fun equal => same (congrArg Json.obj equal))]
        apply diffMaps_render sorted sorted'
        intro k srcVal dstVal old new place path
        exact ih _ (mem_of_find new) (inner _ (mem_of_find old))
      | _ => simp [delta,Edit.render,pointer]
  | arr dst inner' ih =>
    rw [diffRecursive.eq_def]
    split_ifs with same
    · rw [same,delta_self]
      rfl
    · cases formed with
      | arr src inner =>
        rw [delta_arr (fun equal => same (congrArg Json.arr equal))]
        apply diffSlices_render
        intro i srcVal dstVal old new place path
        exact ih _ (mem_of_getElem? new) (inner _ (mem_of_getElem? old))
      | _ => simp [delta,Edit.render,pointer]
  | _ =>
    rw [diffRecursive.eq_def]
    split_ifs with same
    · rw [same,delta_self]
      rfl
    · cases formed <;> simp_all [delta,Edit.render,pointer]

lemma diff_render (formed : src.WellFormed) (formed' : dst.WellFormed) :
    diff ranges src dst = (delta src dst).map (Edit.render []) := diffRecursive_render formed formed'

end Tempest.Deltadiff
