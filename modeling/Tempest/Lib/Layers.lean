import Tempest.Lib.Association

/-! Maps in layers, of which the first one that knows a key decides. When the values are
stamped and every layer is newer than the layers behind it, merging them by the greater
stamp finds the same values. -/
namespace Layers
open Association List

variable {κ α σ : Type} [LinearOrder κ] [LT σ] [DecidableLT σ]

def lookup (k : κ) : List (List (κ × α)) → Option α
  | [] => none
  | layer :: rest => (find k layer).or (lookup k rest)

def keep (stamp : α → σ) (m : List (κ × α)) (entry : κ × α) : List (κ × α) :=
  match find entry.1 m with
  | none => put entry.1 entry.2 m
  | some existing => if stamp existing < stamp entry.2 then put entry.1 entry.2 m else m

def merge (stamp : α → σ) (m layer : List (κ × α)) : List (κ × α) := layer.foldl (keep stamp) m

def mergeAll (stamp : α → σ) (layers : List (List (κ × α))) : List (κ × α) := layers.foldl (merge stamp) []

variable {stamp : α → σ} {k : κ} {m layer : List (κ × α)}

lemma find_keep_other (entry : κ × α) (other : entry.1 ≠ k) : find k (keep stamp m entry) = find k m := by
  unfold keep
  split
  · rw [find_put,if_neg (Ne.symm other)]
  · split_ifs
    · rw [find_put,if_neg (Ne.symm other)]
    · rfl

lemma find_keep_newer (entry : κ × α) (newer : ∀ v,find entry.1 m = some v → stamp v < stamp entry.2) :
    find entry.1 (keep stamp m entry) = some entry.2 := by
  unfold keep
  split
  · rw [find_put,if_pos rfl]
  · rename_i existing found
    rw [if_pos (newer existing found),find_put,if_pos rfl]

lemma sorted_keep (sorted : Sorted m) (entry : κ × α) : Sorted (keep stamp m entry) := by
  unfold keep
  split
  · exact sorted.put
  · split_ifs
    · exact sorted.put
    · exact sorted

lemma sorted_merge (sorted : Sorted m) : Sorted (merge stamp m layer) := by
  induction layer generalizing m with
  | nil => exact sorted
  | cons entry rest later => exact later (sorted_keep sorted entry)

lemma sorted_merges (sorted : Sorted m) (layers : List (List (κ × α))) : Sorted (layers.foldl (merge stamp) m) := by
  induction layers generalizing m with
  | nil => exact sorted
  | cons layer rest later => exact later (sorted_merge sorted)

lemma sorted_mergeAll (layers : List (List (κ × α))) : Sorted (mergeAll stamp layers) := sorted_merges .nil layers

variable {entry : κ × α} {layers : List (List (κ × α))}

lemma mem_keep {new : κ × α} (member : entry ∈ keep stamp m new) : entry = new ∨ entry ∈ m := by
  unfold keep at member
  split at member
  · exact mem_put member
  · split_ifs at member
    · exact mem_put member
    · exact .inr member

lemma mem_merge (member : entry ∈ merge stamp m layer) : entry ∈ m ∨ entry ∈ layer := by
  induction layer generalizing m with
  | nil => exact .inl member
  | cons first rest later =>
    rcases later member with kept | behind
    · rcases mem_keep kept with rfl | old
      · exact .inr mem_cons_self
      · exact .inl old
    · exact .inr (mem_cons_of_mem _ behind)

lemma mem_merges (member : entry ∈ layers.foldl (merge stamp) m) :
    entry ∈ m ∨ ∃ layer ∈ layers,entry ∈ layer := by
  induction layers generalizing m with
  | nil => exact .inl member
  | cons layer rest later =>
    rcases later member with merged | ⟨l,behind,inside⟩
    · rcases mem_merge merged with old | here
      · exact .inl old
      · exact .inr ⟨layer,mem_cons_self,here⟩
    · exact .inr ⟨l,mem_cons_of_mem _ behind,inside⟩

lemma mem_mergeAll (member : entry ∈ mergeAll stamp layers) : ∃ layer ∈ layers,entry ∈ layer := by
  rcases mem_merges member with nothing | found
  · cases nothing
  · exact found

lemma find_merge (sorted : Sorted layer) (newer : ∀ v w,find k m = some v → (k,w) ∈ layer → stamp v < stamp w) :
    find k (merge stamp m layer) = (find k layer).or (find k m) := by
  induction layer generalizing m with
  | nil => rfl
  | cons entry rest later =>
    obtain ⟨x,u⟩ := entry
    obtain ⟨least,tail⟩ := pairwise_cons.mp sorted
    change find k (merge stamp (keep stamp m (x,u)) rest) = _
    rw [find_cons]
    split_ifs with same
    · subst same
      have placed :=
        find_keep_newer (x,u) (fun v found => newer v u found mem_cons_self)
      have absent : ∀ w,(x,w) ∉ rest := fun w member => lt_irrefl x (least _ member)
      have none_ : find x rest = none := by
        rw [find_eq_none]
        intro member
        obtain ⟨⟨_,w⟩,inside,rfl⟩ := mem_map.mp member
        exact absent w inside
      rw [later tail (fun _ w _ member => absurd member (absent w)),none_,placed]
      rfl
    · have other : find k (keep stamp m (x,u)) = find k m := find_keep_other (x,u) same
      rw [later tail,other]
      intro v w found member
      rw [other] at found
      exact newer v w found (mem_cons_of_mem _ member)

def Newest (stamp : α → σ) (layers : List (List (κ × α))) : Prop :=
  layers.Pairwise (fun newer older => ∀ a ∈ newer, ∀ b ∈ older, stamp b.2 < stamp a.2)

lemma mem_of_lookup {v : α} (found : lookup k layers = some v) : ∃ layer ∈ layers,(k,v) ∈ layer := by
  induction layers with
  | nil => cases found
  | cons layer rest later =>
    rcases Option.or_eq_some_iff.mp found with here | ⟨_,behind⟩
    · exact ⟨layer,mem_cons_self,mem_of_find here⟩
    · obtain ⟨l,member,inside⟩ := later behind
      exact ⟨l,mem_cons_of_mem _ member,inside⟩

lemma find_mergeAll (sorted : ∀ layer ∈ layers,Sorted layer)
    (newest : Newest stamp layers) : find k (mergeAll stamp layers.reverse) = lookup k layers := by
  induction layers with
  | nil => rfl
  | cons layer rest later =>
    obtain ⟨newer,tail⟩ := pairwise_cons.mp newest
    have older := later (fun l member => sorted l (mem_cons_of_mem _ member)) tail
    rw [mergeAll,reverse_cons,foldl_append]
    change find k (merge stamp (mergeAll stamp rest.reverse) layer) = _
    rw [find_merge (sorted layer mem_cons_self),older,lookup]
    intro v w found member
    rw [older] at found
    obtain ⟨l,behind,inside⟩ := mem_of_lookup found
    exact newer l behind _ member _ inside

end Layers
