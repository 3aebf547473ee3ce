import Tempest.GraphMutator

/-! Putting a node before or after another one. Both calls change the graph in place, sort
it, and undo the change by hand when the sort fails. `InjectAfter` undoes it by name:
it turns every dependency on the new node into one on the target, also those that were
there before. -/
open List
namespace Tempest.GraphMutator
open Association Relation

def rename (old new : String) (deps : List String) : List String := deps.map (fun dep => if dep = old then new else dep)

namespace DAG

def set (d : DAG) (id : String) (n : Node) : DAG := ⟨put id n d.nodes,d.sorted.put⟩

def delete (d : DAG) (id : String) : DAG := ⟨erase id d.nodes,d.sorted.erase⟩

lemma keys_update (change : String → Node → Node) (nodes : List (String × Node)) :
    keys nodes = keys (nodes.map (fun entry => (entry.1,change entry.1 entry.2))) := by
  simp [Association.keys]

def update (d : DAG) (change : String → Node → Node) : DAG :=
  ⟨d.nodes.map (fun entry => (entry.1,change entry.1 entry.2)),d.sorted.of_keys (keys_update change d.nodes)⟩

variable (visits degrees : List String)

/-- Both calls: `change` is made to the graph when the target is there and the new node is
not, and `undo` to the changed graph when the sort fails. -/
def inject (d : DAG) (targetID newID : String) (change : Node → DAG) (undo : Node → DAG → DAG) : DAG × Option Failure :=
  match find targetID d.nodes with
  | none => (d,some (.nodeNotFound ("target " ++ targetID)))
  | some target =>
    if newID ∈ d.ids then (d,some (.nodeAlreadyExists newID))
    else
      match (change target).validate visits degrees with
      | none => (change target,none)
      | some err => (undo target (change target),some err)

def before (d : DAG) (targetID : String) (target newNode : Node) : DAG :=
  (d.set newNode.id { newNode with dependencies := target.dependencies }).set targetID
    { target with dependencies := [newNode.id] }

def injectBefore (d : DAG) (targetID : String) (newNode : Node) : DAG × Option Failure :=
  d.inject visits degrees targetID newNode.id (fun target => d.before targetID target newNode)
    (fun target injected => (injected.delete newNode.id).set targetID { target with dependencies := target.dependencies })

def after (d : DAG) (targetID : String) (newNode : Node) : DAG :=
  (d.set newNode.id { newNode with dependencies := [targetID] }).update (fun id other =>
    if id = newNode.id ∨ id = targetID then other
    else { other with dependencies := rename targetID newNode.id other.dependencies })

def renamed (d : DAG) (targetID newID : String) : DAG :=
  (d.delete newID).update (fun _ other => { other with dependencies := rename newID targetID other.dependencies })

def injectAfter (d : DAG) (targetID : String) (newNode : Node) : DAG × Option Failure :=
  d.inject visits degrees targetID newNode.id (fun _ => d.after targetID newNode)
    (fun _ injected => injected.renamed targetID newNode.id)

/-- What a call is to leave: the graph itself after an error, and after a success a valid
graph in which the old nodes depend on each other as before. -/
structure Injected (d : DAG) (placed : DAG → Prop) (result : DAG × Option Failure) : Prop where
  atomic : ∀ err, result.2 = some err → result.1 = d
  acyclic : result.2 = none → ∀ x, ¬ Relation.TransGen result.1.DependsOn x x
  known : result.2 = none → ∀ x y, ¬ result.1.Dangling x y
  preserved : result.2 = none → ∀ x ∈ d.ids, ∀ y ∈ d.ids,
    (Relation.TransGen result.1.DependsOn x y ↔ Relation.TransGen d.DependsOn x y)
  placed : result.2 = none → placed result.1

def PlacedBefore (d : DAG) (targetID newID : String) (d' : DAG) : Prop :=
  d'.DependsOn targetID newID ∧ ∀ y, d.DependsOn targetID y → d'.DependsOn newID y

def PlacedAfter (d : DAG) (targetID newID : String) (d' : DAG) : Prop :=
  d'.DependsOn newID targetID ∧ ∀ x, d.DependsOn x targetID → d'.DependsOn x newID

/-- There is no cycle, all that the nodes depend on exists or is the new node, and the target does
not depend on a node that names the new one. So the injected graph has neither a cycle nor a
missing node. -/
structure Fits (d : DAG) (targetID newID : String) : Prop where
  acyclic : ∀ x, ¬ TransGen d.DependsOn x x
  known : ∀ x y, d.DependsOn x y → y = newID ∨ y ∈ d.ids
  apart : ∀ x, d.DependsOn x newID → ¬ ReflTransGen d.DependsOn targetID x

def Valid (d : DAG) : Prop := (∀ x, ¬ TransGen d.DependsOn x x) ∧ ∀ x y, ¬ d.Dangling x y

variable {d : DAG} {targetID : String} {target newNode : Node}

lemma ext_find {d' : DAG} (same : ∀ id,find id d.nodes = find id d'.nodes) : d = d' := by
  obtain ⟨nodes,sorted⟩ := d
  obtain ⟨nodes',sorted'⟩ := d'
  cases sorted.ext sorted' same
  rfl

lemma find_update (change : String → Node → Node) (id : String) :
    find id (d.update change).nodes = (find id d.nodes).map (change id) := by
  unfold update
  dsimp only
  induction d.nodes with
  | nil => rfl
  | cons entry rest ih =>
    rw [map_cons,find_cons,ih]
    obtain ⟨key,n⟩ := entry
    rw [find_cons]
    split_ifs with same
    · rw [same]
      rfl
    · rfl

lemma find_set (id k : String) (n : Node) : find k (d.set id n).nodes = if k = id then some n else find k d.nodes := find_put

lemma find_delete (id k : String) : find k (d.delete id).nodes = if k = id then none else find k d.nodes := find_erase

lemma mem_ids_iff {id : String} : id ∈ d.ids ↔ (find id d.nodes).isSome = true := find_isSome.symm

variable {old new y x : String} {deps : List String}

lemma rename_of_not_mem (absent : old ∉ deps) : rename old new deps = deps := by
  induction deps with
  | nil => rfl
  | cons dep rest ih =>
    obtain ⟨other,absent'⟩ := not_or.mp (mem_cons.not.mp absent)
    have tail := ih absent'
    rw [rename] at tail ⊢
    rw [map_cons,if_neg (Ne.symm other),tail]

lemma rename_rename (absent : new ∉ deps) : rename new old (rename old new deps) = deps := by
  induction deps with
  | nil => rfl
  | cons dep rest ih =>
    obtain ⟨other,absent'⟩ := not_or.mp (mem_cons.not.mp absent)
    have tail := ih absent'
    simp only [rename,map_cons] at tail ⊢
    rw [tail]
    by_cases same : dep = old
    · simp [same]
    · simp [same,Ne.symm other]

lemma mem_rename : y ∈ rename old new deps ↔ (y = new ∧ old ∈ deps) ∨ (y ≠ old ∧ y ∈ deps) := by
  rw [rename,mem_map]
  constructor
  · rintro ⟨dep,member,rfl⟩
    split_ifs with same
    · exact .inl ⟨rfl,same ▸ member⟩
    · exact .inr ⟨same,member⟩
  · rintro (⟨rfl,member⟩ | ⟨other,member⟩)
    · exact ⟨old,member,if_pos rfl⟩
    · exact ⟨y,member,if_neg other⟩

lemma before_dependencies (id : String) : (d.before targetID target newNode).dependencies id =
      if id = targetID then [newNode.id] else if id = newNode.id then target.dependencies else d.dependencies id := by
  rw [dependencies,before,find_set,find_set]
  split_ifs
  all_goals rfl

lemma after_dependencies (id : String) : (d.after targetID newNode).dependencies id =
      if id = newNode.id then [targetID] else if id = targetID then d.dependencies id
      else rename targetID newNode.id (d.dependencies id) := by
  rw [dependencies,after,find_update,find_set]
  by_cases new : id = newNode.id
  · simp [new]
  · rw [if_neg new,if_neg new,dependencies]
    cases find id d.nodes with
    | none => simp [rename]
    | some n => by_cases same : id = targetID <;> simp [new,same]

def undone (targetID newID id : String) (deps : List String) : List String :=
  rename newID targetID (if id = targetID then deps else rename targetID newID deps)

lemma undone_of_not_mem {newID id : String} (absent : newID ∉ deps) : undone targetID newID id deps = deps := by
  unfold undone
  split_ifs
  · exact rename_of_not_mem absent
  · exact rename_rename absent

lemma not_mem_undone {newID id : String} (apart : targetID ≠ newID) : newID ∉ undone targetID newID id deps := by
  rw [undone,mem_rename]
  rintro (⟨equal,-⟩ | ⟨unequal,-⟩)
  · exact apart equal.symm
  · exact unequal rfl

section Fresh

variable (fresh : newNode.id ∉ d.ids) (found : find targetID d.nodes = some target)

include fresh found

lemma ne_of_fresh : targetID ≠ newNode.id := by
  rintro rfl
  exact fresh (mem_ids_iff.mpr (by rw [found]; rfl))

lemma before_ids : (newNode.id :: d.ids).Perm (d.before targetID target newNode).ids := by
  apply (perm_ext_iff_of_nodup (nodup_cons.mpr ⟨fresh,d.ids_nodup⟩) (ids_nodup _)).mpr
  intro id
  rw [mem_cons,mem_ids_iff,mem_ids_iff,before,find_set,find_set]
  by_cases same : id = targetID
  · simp [same,found]
  · rw [if_neg same]
    by_cases new : id = newNode.id
    all_goals simp [new]

lemma rollback_before : ((d.before targetID target newNode).delete newNode.id).set targetID
      { target with dependencies := target.dependencies } = d := by
  apply ext_find
  intro id
  rw [find_set,find_delete,before,find_set,find_set]
  by_cases same : id = targetID
  · rw [if_pos same,same,found]
  · rw [if_neg same]
    split_ifs with new
    · rw [new,find_eq_none.mpr fresh]
    · rfl

section
omit found

lemma after_ids : (newNode.id :: d.ids).Perm (d.after targetID newNode).ids := by
  apply (perm_ext_iff_of_nodup (nodup_cons.mpr ⟨fresh,d.ids_nodup⟩) (ids_nodup _)).mpr
  intro id
  rw [mem_cons,mem_ids_iff,mem_ids_iff,after,find_update,find_set]
  by_cases new : id = newNode.id
  all_goals simp [new]

lemma rollback_after_find (id : String) :
    find id ((d.after targetID newNode).renamed targetID newNode.id).nodes =
      (find id d.nodes).map (fun n => { n with dependencies := undone targetID newNode.id id n.dependencies }) := by
  rw [renamed,find_update,find_delete,after,find_update,find_set]
  by_cases new : id = newNode.id
  · rw [if_pos new,new,find_eq_none.mpr fresh]
    rfl
  · rw [if_neg new,if_neg new]
    cases find id d.nodes with
    | none => rfl
    | some n => by_cases same : id = targetID <;> simp [new,same,undone]

lemma rollback_after (unnamed : ∀ x,¬ d.DependsOn x newNode.id) :
    (d.after targetID newNode).renamed targetID newNode.id = d := by
  apply ext_find
  intro id
  rw [rollback_after_find fresh]
  cases stored : find id d.nodes with
  | none => rfl
  | some n =>
    have absent : newNode.id ∉ n.dependencies := by
      rw [← dependencies_of_find stored]
      exact unnamed id
    rw [Option.map_some,undone_of_not_mem absent]

end

lemma before_dependsOn : (d.before targetID target newNode).DependsOn x y ↔
    x = targetID ∧ y = newNode.id ∨ x = newNode.id ∧ d.DependsOn targetID y ∨ x ≠ targetID ∧ d.DependsOn x y := by
  have apart := ne_of_fresh fresh found
  have outside : ¬ d.DependsOn newNode.id y := fun depends => fresh (mem_ids_of_dependsOn depends)
  rw [DependsOn,before_dependencies,← dependencies_of_find found]
  by_cases same : x = targetID
  · simp [same,apart]
  · by_cases new : x = newNode.id
    · simp [new,apart.symm,outside]
      rfl
    · simp [same,new,DependsOn]

lemma after_dependsOn : (d.after targetID newNode).DependsOn x y ↔ x = newNode.id ∧ y = targetID ∨
    (x ≠ targetID ∧ d.DependsOn x targetID ∧ y = newNode.id) ∨ (d.DependsOn x y ∧ (x = targetID ∨ y ≠ targetID)) := by
  have apart := ne_of_fresh fresh found
  have outside : ∀ z,¬ d.DependsOn newNode.id z := fun z depends => fresh (mem_ids_of_dependsOn depends)
  rw [DependsOn,after_dependencies]
  by_cases new : x = newNode.id
  · simp [new,outside]
  · by_cases same : x = targetID
    · simp [same,apart,DependsOn]
    · simp only [new,same,if_false,mem_rename,DependsOn,false_and,false_or,ne_eq,not_false_eq_true,true_and]
      tauto

lemma before_names (names : d.DependsOn x newNode.id) : (d.before targetID target newNode).DependsOn x newNode.id := by
  by_cases same : x = targetID
  · exact (before_dependsOn fresh found).mpr (.inl ⟨same,rfl⟩)
  · exact (before_dependsOn fresh found).mpr (.inr (.inr ⟨same,names⟩))

lemma before_expands (depends : d.DependsOn x y) : TransGen (d.before targetID target newNode).DependsOn x y := by
  have edge {x y} := @before_dependsOn d targetID target newNode y x fresh found
  by_cases same : x = targetID
  · exact (TransGen.single (edge.mpr (.inl ⟨same,rfl⟩))).tail (edge.mpr (.inr (.inl ⟨rfl,same ▸ depends⟩)))
  · exact .single (edge.mpr (.inr (.inr ⟨same,depends⟩)))

lemma after_expands (depends : d.DependsOn x y) : TransGen (d.after targetID newNode).DependsOn x y := by
  have edge {x y} := @after_dependsOn d targetID target newNode y x fresh found
  by_cases direct : x = targetID ∨ y ≠ targetID
  · exact .single (edge.mpr (.inr (.inr ⟨depends,direct⟩)))
  · obtain ⟨other,goal⟩ := not_or.mp direct
    have goal := not_not.mp goal
    exact (TransGen.single (edge.mpr (.inr (.inl ⟨other,goal ▸ depends,rfl⟩)))).tail (edge.mpr (.inl ⟨rfl,goal⟩))

/-- From an old node, whatever is reached behind the new one was reached before. -/
lemma before_path (reach : ∀ x,d.DependsOn x newNode.id → ∀ y,d.DependsOn targetID y → TransGen d.DependsOn x y)
    (self : ¬ d.DependsOn targetID newNode.id) (old : x ≠ newNode.id)
    (path : TransGen (d.before targetID target newNode).DependsOn x y) :
    (y = newNode.id → ∀ z,d.DependsOn targetID z → TransGen d.DependsOn x z) ∧ (y ≠ newNode.id → TransGen d.DependsOn x y) := by
  induction path with
  | single step =>
    rcases (before_dependsOn fresh found).mp step with ⟨rfl,rfl⟩ | ⟨rfl,-⟩ | ⟨-,depends⟩
    · exact ⟨fun _ z wired => .single wired,fun other => absurd rfl other⟩
    · exact absurd rfl old
    · exact ⟨fun same => reach x (same ▸ depends),fun _ => .single depends⟩
  | tail _ step ih =>
    rcases (before_dependsOn fresh found).mp step with ⟨rfl,rfl⟩ | ⟨rfl,depends⟩ | ⟨-,depends⟩
    · exact ⟨fun _ z wired => (ih.2 (ne_of_fresh fresh found)).tail wired,fun other => absurd rfl other⟩
    · exact ⟨fun same => absurd (same ▸ depends) self,fun _ => ih.1 rfl _ depends⟩
    · have sooner := ih.2 (ne_of_mem_of_not_mem (mem_ids_of_dependsOn depends) fresh)
      exact ⟨fun same z wired => sooner.trans (reach _ (same ▸ depends) z wired),fun _ => sooner.tail depends⟩

lemma after_path (reach : ∀ x,d.DependsOn x newNode.id → TransGen d.DependsOn x targetID) (old : x ≠ newNode.id)
    (path : TransGen (d.after targetID newNode).DependsOn x y) :
    (y = newNode.id → TransGen d.DependsOn x targetID) ∧ (y ≠ newNode.id → TransGen d.DependsOn x y) := by
  induction path with
  | single step =>
    rcases (after_dependsOn fresh found).mp step with ⟨rfl,-⟩ | ⟨-,depends,rfl⟩ | ⟨depends,-⟩
    · exact absurd rfl old
    · exact ⟨fun _ => .single depends,fun other => absurd rfl other⟩
    · exact ⟨fun same => reach x (same ▸ depends),fun _ => .single depends⟩
  | tail _ step ih =>
    rcases (after_dependsOn fresh found).mp step with ⟨rfl,rfl⟩ | ⟨-,depends,rfl⟩ | ⟨depends,-⟩
    · exact ⟨fun same => absurd same (ne_of_fresh fresh found),fun _ => ih.1 rfl⟩
    · have sooner := ih.2 (ne_of_mem_of_not_mem (mem_ids_of_dependsOn depends) fresh)
      exact ⟨fun _ => sooner.tail depends,fun other => absurd rfl other⟩
    · have sooner := ih.2 (ne_of_mem_of_not_mem (mem_ids_of_dependsOn depends) fresh)
      exact ⟨fun same => sooner.trans (reach _ (same ▸ depends)),fun _ => sooner.tail depends⟩

lemma fits_of_before (valid : (d.before targetID target newNode).Valid) : Fits d targetID newNode.id := by
  obtain ⟨acyclic,known⟩ := valid
  have edge {x y} := @before_dependsOn d targetID target newNode y x fresh found
  have inside : ∀ {x y},(d.before targetID target newNode).DependsOn x y → y = newNode.id ∨ y ∈ d.ids := fun depends =>
    mem_cons.mp ((before_ids fresh found).mem_iff.mpr (not_not.mp fun absent => known _ _ ⟨depends,absent⟩))
  refine ⟨fun x path => acyclic x (TransGen.closed (fun _ _ => before_expands fresh found) _ _ path),fun x y depends => ?_,
    fun x names path => ?_⟩
  · by_cases same : x = targetID
    · exact inside (edge.mpr (.inr (.inl ⟨rfl,same ▸ depends⟩)))
    · exact inside (edge.mpr (.inr (.inr ⟨same,depends⟩)))
  · -- the new node depends on what the target depended on, and that on the new node
    rcases path.cases_head with rfl | ⟨y,depends,path⟩
    · exact acyclic _ (.single (edge.mpr (.inr (.inl ⟨rfl,names⟩))))
    · have last := before_names fresh found names
      have along := ReflTransGen.lift' id (fun _ _ wired => (before_expands fresh found wired).to_reflTransGen) _ _ path
      exact acyclic _ (((TransGen.single (edge.mpr (.inr (.inl ⟨rfl,depends⟩)))).trans_left along).tail last)

lemma before_of_fits (fits : Fits d targetID newNode.id) : (d.before targetID target newNode).Valid := by
  have edge {x y} := @before_dependsOn d targetID target newNode y x fresh found
  have apart := ne_of_fresh fresh found
  have old : ∀ {x y},d.DependsOn x y → x ≠ newNode.id := fun depends =>
    ne_of_mem_of_not_mem (mem_ids_of_dependsOn depends) fresh
  -- behind the new node are nodes that the target depends on
  have behind : ∀ z,TransGen (d.before targetID target newNode).DependsOn newNode.id z →
      z ≠ newNode.id ∧ TransGen d.DependsOn targetID z := by
    intro z path
    induction path with
    | single step =>
      rcases edge.mp step with ⟨same,-⟩ | ⟨-,depends⟩ | ⟨-,depends⟩
      · exact absurd same.symm apart
      · exact ⟨fun same => fits.apart _ (same ▸ depends) .refl,.single depends⟩
      · exact absurd rfl (old depends)
    | tail _ step ih =>
      rcases edge.mp step with ⟨same,-⟩ | ⟨same,-⟩ | ⟨-,depends⟩
      · exact absurd (same ▸ ih.2) (fits.acyclic _)
      · exact absurd same ih.1
      · exact ⟨fun same => fits.apart _ (same ▸ depends) ih.2.to_reflTransGen,ih.2.tail depends⟩
  have through : ∀ {x z},x ≠ newNode.id → TransGen (d.before targetID target newNode).DependsOn x z →
      z = newNode.id ∨ TransGen d.DependsOn x z ∨ TransGen (d.before targetID target newNode).DependsOn x newNode.id ∧
        TransGen (d.before targetID target newNode).DependsOn newNode.id z := by
    intro x z start path
    induction path with
    | single step =>
      rcases edge.mp step with ⟨-,new⟩ | ⟨new,-⟩ | ⟨-,depends⟩
      · exact .inl new
      · exact absurd new start
      · exact .inr (.inl (.single depends))
    | tail sooner step ih =>
      rcases edge.mp step with ⟨-,new⟩ | ⟨rfl,-⟩ | ⟨-,depends⟩
      · exact .inl new
      · exact .inr (.inr ⟨sooner,.single step⟩)
      · rcases ih with new | path | ⟨first,second⟩
        · exact absurd new (old depends)
        · exact .inr (.inl (path.tail depends))
        · exact .inr (.inr ⟨first,second.tail step⟩)
  constructor
  · intro x cycle
    by_cases new : x = newNode.id
    · exact (behind x (new ▸ cycle)).1 new
    · rcases through new cycle with same | path | ⟨first,second⟩
      · exact new same
      · exact fits.acyclic x path
      · exact (behind _ (second.trans first)).1 rfl
  · rintro x y ⟨depends,absent⟩
    rw [← (before_ids fresh found).mem_iff,mem_cons] at absent
    rcases edge.mp depends with ⟨-,new⟩ | ⟨-,wired⟩ | ⟨-,wired⟩
    · exact absent (.inl new)
    all_goals exact absent (fits.known _ _ wired)

lemma fits_of_after (valid : (d.after targetID newNode).Valid) : Fits d targetID newNode.id := by
  obtain ⟨acyclic,known⟩ := valid
  have edge {x y} := @after_dependsOn d targetID target newNode y x fresh found
  refine ⟨fun x path => acyclic x (TransGen.closed (fun _ _ => after_expands fresh found) _ _ path),fun x y depends => ?_,
    fun x names path => ?_⟩
  · by_cases same : y = targetID
    · exact .inr (mem_ids_iff.mpr (by rw [same,found]; rfl))
    · have wired := edge.mpr (.inr (.inr ⟨depends,.inr same⟩))
      exact mem_cons.mp ((after_ids fresh).mem_iff.mpr (not_not.mp fun absent => known _ _ ⟨wired,absent⟩))
  · have last := edge.mpr (.inr (.inr ⟨names,.inr (ne_of_fresh fresh found).symm⟩))
    have along := ReflTransGen.lift' id (fun _ _ wired => (after_expands fresh found wired).to_reflTransGen) _ _ path
    exact acyclic _ (((TransGen.single (edge.mpr (.inl ⟨rfl,rfl⟩))).trans_left along).tail last)

lemma after_of_fits (fits : Fits d targetID newNode.id)
    (reach : ∀ x,d.DependsOn x newNode.id → TransGen d.DependsOn x targetID) : (d.after targetID newNode).Valid := by
  have edge {x y} := @after_dependsOn d targetID target newNode y x fresh found
  have old := ne_of_fresh fresh found
  constructor
  · intro x cycle
    by_cases new : x = newNode.id
    · rw [new] at cycle
      obtain ⟨y,first,rest⟩ := TransGen.head'_iff.mp cycle
      rcases edge.mp first with ⟨-,rfl⟩ | ⟨-,depends,-⟩ | ⟨depends,-⟩
      · rcases reflTransGen_iff_eq_or_transGen.mp rest with same | path
        · exact old same.symm
        · exact fits.acyclic _ ((after_path fresh found reach old path).1 rfl)
      all_goals exact fresh (mem_ids_of_dependsOn depends)
    · exact fits.acyclic x ((after_path fresh found reach new cycle).2 new)
  · rintro x y ⟨depends,absent⟩
    rw [← (after_ids fresh).mem_iff,mem_cons] at absent
    rcases edge.mp depends with ⟨-,rfl⟩ | ⟨-,-,new⟩ | ⟨wired,-⟩
    · exact absent (.inr (mem_ids_iff.mpr (by rw [found]; rfl)))
    · exact absent (.inl new)
    · exact absent (fits.known _ _ wired)

end Fresh

section Calls

lemma injected_of_error {placed : DAG → Prop} {err : Failure} : Injected d placed (d,some err) :=
  ⟨fun _ _ => rfl,by simp,by simp,by simp,by simp⟩

variable {visits degrees}

lemma inject_injected_iff {newID : String} {change : Node → DAG} {undo : Node → DAG → DAG} {placed : DAG → Prop} {P : Prop}
    (visited : visits.Perm (newID :: d.ids)) (ranged : degrees.Perm (newID :: d.ids))
    (ids : ∀ target,newID ∉ d.ids → find targetID d.nodes = some target → (newID :: d.ids).Perm (change target).ids)
    (accepted : ∀ target,newID ∉ d.ids → find targetID d.nodes = some target →
      (change target).Valid → (Injected d placed (change target,none) ↔ P))
    (refused : ∀ target err,newID ∉ d.ids → find targetID d.nodes = some target →
      ¬ (change target).Valid → (Injected d placed (undo target (change target),some err) ↔ P)) :
    Injected d placed (d.inject visits degrees targetID newID change undo) ↔ targetID ∉ d.ids ∨ newID ∈ d.ids ∨ P := by
  unfold inject
  cases found : find targetID d.nodes with
  | none => exact iff_of_true injected_of_error (.inl (find_eq_none.mp found))
  | some target =>
    have inside : targetID ∈ d.ids := mem_ids_iff.mpr (by rw [found]; rfl)
    dsimp only
    split_ifs with known
    · exact iff_of_true injected_of_error (.inr (.inl known))
    · have ids := ids target known found
      have valid_iff := validate_eq_none (visited.trans ids) (ranged.trans ids)
      rw [or_iff_right (not_not.mpr inside),or_iff_right known]
      cases valid : (change target).validate visits degrees with
      | none => exact accepted target known found (valid_iff.mp valid)
      | some err =>
        refine refused target err known found fun sound => ?_
        rw [valid_iff.mpr sound] at valid
        cases valid

variable (newNode) (visited : visits.Perm (newNode.id :: d.ids)) (ranged : degrees.Perm (newNode.id :: d.ids))
include visited ranged

lemma injectBefore_injected_iff (targetID : String) :
    Injected d (PlacedBefore d targetID newNode.id) (d.injectBefore visits degrees targetID newNode) ↔
      targetID ∉ d.ids ∨ newNode.id ∈ d.ids ∨ (Fits d targetID newNode.id → ∀ x,d.DependsOn x newNode.id →
        ∀ y,d.DependsOn targetID y → TransGen d.DependsOn x y) := by
  apply inject_injected_iff visited ranged (fun _ => before_ids)
  · intro target fresh found valid
    have ⟨acyclic,known⟩ := valid
    have edge {x y} := @before_dependsOn d targetID target newNode y x fresh found
    constructor
    · intro injected _ x names y depends
      have first := before_names fresh found names
      have second : (d.before targetID target newNode).DependsOn newNode.id y := edge.mpr (.inr (.inl ⟨rfl,depends⟩))
      have within : y ∈ d.ids := by
        rcases (fits_of_before fresh found valid).known _ _ depends with rfl | within
        · exact absurd (TransGen.single second) (acyclic _)
        · exact within
      exact (injected.preserved rfl x (mem_ids_of_dependsOn names) y within).mp ((TransGen.single first).tail second)
    · intro reach
      have reach := reach (fits_of_before fresh found valid)
      have self : ¬ d.DependsOn targetID newNode.id := fun names => acyclic _ (.single (edge.mpr (.inr (.inl ⟨rfl,names⟩))))
      refine ⟨by simp,fun _ => acyclic,fun _ => known,fun _ x left y right => ⟨fun path => ?_,?_⟩,fun _ => ⟨?_,?_⟩⟩
      · exact (before_path fresh found reach self (ne_of_mem_of_not_mem left fresh) path).2
          (ne_of_mem_of_not_mem right fresh)
      · exact TransGen.closed (fun _ _ => before_expands fresh found) x y
      · exact edge.mpr (.inl ⟨rfl,rfl⟩)
      · exact fun y depends => edge.mpr (.inr (.inl ⟨rfl,depends⟩))
  · intro target err fresh found invalid
    rw [rollback_before fresh found]
    exact iff_of_true injected_of_error fun fits => absurd (before_of_fits fresh found fits) invalid

lemma injectAfter_injected_iff (targetID : String) :
    Injected d (PlacedAfter d targetID newNode.id) (d.injectAfter visits degrees targetID newNode) ↔
      targetID ∉ d.ids ∨ newNode.id ∈ d.ids ∨
        ∀ x,d.DependsOn x newNode.id → Fits d targetID newNode.id ∧ TransGen d.DependsOn x targetID := by
  apply inject_injected_iff visited ranged (fun _ fresh _ => after_ids fresh)
  · intro target fresh found valid
    have ⟨acyclic,known⟩ := valid
    have edge {x y} := @after_dependsOn d targetID target newNode y x fresh found
    constructor
    · intro injected x names
      have inside : targetID ∈ d.ids := mem_ids_iff.mpr (by rw [found]; rfl)
      have first := edge.mpr (.inr (.inr ⟨names,.inr (ne_of_fresh fresh found).symm⟩))
      have second : (d.after targetID newNode).DependsOn newNode.id targetID := edge.mpr (.inl ⟨rfl,rfl⟩)
      exact ⟨fits_of_after fresh found valid,
        (injected.preserved rfl x (mem_ids_of_dependsOn names) targetID inside).mp ((TransGen.single first).tail second)⟩
    · intro reach
      refine ⟨by simp,fun _ => acyclic,fun _ => known,fun _ x left y right => ⟨fun path => ?_,?_⟩,
        fun _ => ⟨edge.mpr (.inl ⟨rfl,rfl⟩),fun x depends => ?_⟩⟩
      · exact (after_path fresh found (fun x names => (reach x names).2) (ne_of_mem_of_not_mem left fresh) path).2
          (ne_of_mem_of_not_mem right fresh)
      · exact TransGen.closed (fun _ _ => after_expands fresh found) x y
      · by_cases same : x = targetID
        · exact absurd (TransGen.single (edge.mpr (.inr (.inr ⟨depends,.inl same⟩)))) (same ▸ acyclic x)
        · exact edge.mpr (.inr (.inl ⟨same,depends,rfl⟩))
  · intro target err fresh found invalid
    constructor
    · intro injected x names
      obtain ⟨n,stored⟩ := Option.isSome_iff_exists.mp (mem_ids_iff.mp (mem_ids_of_dependsOn names))
      have lists := @rollback_after_find d targetID newNode fresh x
      have kept := injected.atomic err rfl
      dsimp only at kept
      rw [kept,stored,Option.map_some,Option.some_inj] at lists
      rw [DependsOn,dependencies_of_find stored,congrArg Node.dependencies lists] at names
      exact absurd names (not_mem_undone (ne_of_fresh fresh found))
    · intro reach
      rw [rollback_after fresh]
      · exact injected_of_error
      · exact fun x names => invalid (after_of_fits fresh found (reach x names).1 fun z names => (reach z names).2)

end Calls

/-- For every target and however the maps are iterated, a call does what it should exactly if the
target is missing, if the new node exists already, or if no node names it as a dependency, apart
from this: `InjectBefore` may find such nodes when the injected graph is refused or when they
depend on all that the target depends on, `InjectAfter` when the injected graph is accepted and
they depend on the target. -/
theorem injections_exact_iff (d : DAG) (targetID : String) (newNode : Node) {visits degrees : List String}
    (visited : visits.Perm (newNode.id :: d.ids)) (ranged : degrees.Perm (newNode.id :: d.ids)) :
    (Injected d (PlacedBefore d targetID newNode.id) (d.injectBefore visits degrees targetID newNode) ↔
      targetID ∉ d.ids ∨ newNode.id ∈ d.ids ∨ (Fits d targetID newNode.id → ∀ x, d.DependsOn x newNode.id →
        ∀ y, d.DependsOn targetID y → TransGen d.DependsOn x y)) ∧
    (Injected d (PlacedAfter d targetID newNode.id) (d.injectAfter visits degrees targetID newNode) ↔
      targetID ∉ d.ids ∨ newNode.id ∈ d.ids ∨
        ∀ x, d.DependsOn x newNode.id → Fits d targetID newNode.id ∧ TransGen d.DependsOn x targetID) :=
  ⟨injectBefore_injected_iff newNode visited ranged targetID,injectAfter_injected_iff newNode visited ranged targetID⟩

def naming : DAG := ⟨[("a",⟨"a","TASK",[],[]⟩),("b",⟨"b","TASK",[],["a","n"]⟩)],by unfold Sorted; decide⟩

/-- A node depends on the target and names the new node, which may be put before and after the
target all the same. -/
theorem injections_naming :
    Injected naming (PlacedBefore naming "a" "n") (naming.injectBefore ["n","a","b"] ["b","n","a"] "a" ⟨"n","TASK",[],[]⟩) ∧
      Injected naming (PlacedAfter naming "a" "n") (naming.injectAfter ["n","a","b"] ["b","n","a"] "a" ⟨"n","TASK",[],[]⟩) := by
  have lists : ∀ id ∈ naming.ids,∀ dep ∈ naming.dependencies id,id = "b" ∧ (dep = "a" ∨ dep = "n") := by decide
  have edges : ∀ {x y},naming.DependsOn x y → x = "b" ∧ (y = "a" ∨ y = "n") := fun depends =>
    lists _ (mem_ids_of_dependsOn depends) _ depends
  have leaf : ∀ y,¬ naming.DependsOn "a" y := fun y depends => absurd (edges depends).1 (by decide)
  obtain ⟨before_,after_⟩ := injections_exact_iff naming "a" ⟨"n","TASK",[],[]⟩
    (show ["n","a","b"].Perm ("n" :: naming.ids) by decide) (show ["b","n","a"].Perm ("n" :: naming.ids) by decide)
  refine ⟨before_.mpr (.inr (.inr fun _ x _ y depends => absurd depends (leaf y))),after_.mpr (.inr (.inr ?_))⟩
  intro x names
  obtain ⟨rfl,-⟩ := edges names
  refine ⟨⟨fun x cycle => ?_,fun x y depends => ?_,fun x names path => ?_⟩,.single (by unfold DependsOn; decide)⟩
  · obtain ⟨y,first,-⟩ := TransGen.head'_iff.mp cycle
    obtain ⟨z,-,last⟩ := TransGen.tail'_iff.mp cycle
    rw [(edges first).1] at last
    exact absurd (edges last).2 (by decide)
  · rcases (edges depends).2 with rfl | rfl
    · exact .inr (by decide)
    · exact .inl rfl
  · rcases path.cases_head with rfl | ⟨y,depends,-⟩
    · exact leaf _ names
    · exact leaf y depends

def waiting : DAG := ⟨[("b",⟨"b","TASK",[],["n"]⟩)],by unfold Sorted; decide⟩

/-- After the failed call the node depends on itself. -/
theorem injectAfter_waiting :
    ¬ Injected waiting (PlacedAfter waiting "b" "n") (waiting.injectAfter ["b","n"] ["b","n"] "b" ⟨"n","TASK",[],[]⟩) := by
  intro injected
  have nodes := congrArg DAG.nodes (injected.atomic .cycleDetected (by decide))
  revert nodes
  decide

end DAG

end Tempest.GraphMutator
