import Tempest.Lib.Association
import Tempest.Lib.Kahn
import Mathlib.Data.String.Basic

/-! The graph of `internal/graphmutator` and its topological sort. A node lists the nodes
that it depends on. The loops over the node map and over the map of counts go in an
order of their own each time, which is an argument. -/
open List
namespace Tempest.GraphMutator
open Association Dependency Function Relation

structure Node where
  id : String
  type : String
  metadata : List (String × String)
  dependencies : List String
  deriving DecidableEq

structure DAG where
  nodes : List (String × Node)
  sorted : Sorted nodes

inductive Failure
  | nodeNotFound (what : String)
  | nodeAlreadyExists (id : String)
  | cycleDetected
  | danglingEdge (id dep : String)
  deriving DecidableEq

def Failure.message : Failure → String
  | nodeNotFound what => "graphmutator: node not found: " ++ what
  | nodeAlreadyExists id => "graphmutator: node already exists: " ++ id
  | cycleDetected => "graphmutator: cycle detected in graph"
  | danglingEdge id dep => "graphmutator: dangling dependency edge: " ++ id ++ " -> " ++ dep

/-- The maps `inDegree` and `dependents` while they are filled. -/
structure Tally where
  inDegree : String → Int := fun _ => 0
  dependents : String → List String := fun _ => []

namespace DAG

def ids (d : DAG) : List String := keys d.nodes

def dependencies (d : DAG) (id : String) : List String := ((find id d.nodes).map Node.dependencies).getD []

def tally (d : DAG) (id : String) (t : Tally) (dep : String) : Except Failure Tally :=
  if dep ∈ d.ids then
    .ok ⟨Function.update t.inDegree id (t.inDegree id + 1),Function.update t.dependents dep (t.dependents dep ++ [id])⟩
  else .error (.danglingEdge id dep)

def tallyAll (d : DAG) (visits : List String) (t : Tally) : Except Failure Tally :=
  visits.foldlM (fun t id => (d.dependencies id).foldlM (d.tally id) t) t

def file (ready : List String) (child : String) : List String := (ready ++ [child]).insertionSort (· ≤ ·)

def topologicalSort (d : DAG) (visits degrees : List String) : Except Failure (List String) := do
  let t ← d.tallyAll visits {}
  let zeroInDegree := (degrees.filter (fun id => t.inDegree id = 0)).insertionSort (· ≤ ·)
  let sorted := (Kahn.run file t.dependents d.nodes.length ⟨zeroInDegree,t.inDegree,[]⟩).order
  if sorted.length ≠ d.nodes.length then .error .cycleDetected else .ok sorted

def validate (d : DAG) (visits degrees : List String) : Option Failure :=
  match d.topologicalSort visits degrees with
  | .ok _ => none
  | .error e => some e

def DependsOn (d : DAG) (x y : String) : Prop := y ∈ d.dependencies x

def Dangling (d : DAG) (x y : String) : Prop := y ∈ d.dependencies x ∧ y ∉ d.ids

def orders (d : DAG) : Set (List String) := {order | order.Perm d.ids ∧ Ordered d.dependencies order}

variable {d : DAG}

lemma ids_nodup (d : DAG) : d.ids.Nodup := d.sorted.keys_nodup

lemma ids_length (d : DAG) : d.ids.length = d.nodes.length := length_map _

variable {id : String} (ready : List String)

lemma dependencies_of_find {n : Node} (found : find id d.nodes = some n) :
    d.dependencies id = n.dependencies := by
  rw [dependencies,found]
  rfl

lemma dependencies_absent (absent : id ∉ d.ids) : d.dependencies id = [] := by
  rw [dependencies,find_eq_none.mpr absent]
  rfl

lemma mem_ids_of_dependsOn {x y : String} (depends : d.DependsOn x y) : x ∈ d.ids := by
  by_contra absent
  rw [DependsOn,dependencies_absent absent] at depends
  cases depends

lemma file_perm (child : String) : (file ready child).Perm (child :: ready) :=
  (perm_insertionSort _ _).trans (perm_append_singleton child ready)

lemma file_sorted (child : String) : (file ready child).Pairwise (· ≤ ·) :=
  pairwise_insertionSort _ _

section Tallying

lemma tally_foldlM (id : String) (deps : List String) (known : ∀ dep ∈ deps,dep ∈ d.ids) (t : Tally) :
    ∃ t',deps.foldlM (d.tally id) t = .ok t' ∧
      (∀ y,t'.inDegree y = t.inDegree y + if y = id then deps.length else 0) ∧
      ∀ x,t'.dependents x = t.dependents x ++ List.replicate (deps.count x) id := by
  induction deps generalizing t with
  | nil => exact ⟨t,rfl,by simp,by simp⟩
  | cons dep rest ih =>
    obtain ⟨t',result,degrees,lists⟩ := ih (fun dep member => known dep (mem_cons_of_mem _ member))
      ⟨update t.inDegree id (t.inDegree id + 1),update t.dependents dep (t.dependents dep ++ [id])⟩
    refine ⟨t',?_,?_,?_⟩
    · rw [foldlM_cons,tally,if_pos (known dep mem_cons_self)]
      exact result
    · intro y
      rw [degrees y]
      dsimp only
      by_cases same : y = id
      · rw [same,update_self,if_pos rfl,if_pos rfl,length_cons]
        omega
      · rw [update_of_ne same,if_neg same,if_neg same]
    · intro x
      rw [lists x]
      dsimp only
      by_cases same : x = dep
      · rw [same,update_self,count_cons_self,append_assoc]
        rfl
      · rw [update_of_ne same,count_cons_of_ne (Ne.symm same)]

lemma tally_foldlM_error (id : String) (deps : List String) (missing : ∃ dep ∈ deps,dep ∉ d.ids) (t : Tally) :
    ∃ dep ∈ deps,dep ∉ d.ids ∧ deps.foldlM (d.tally id) t = .error (.danglingEdge id dep) := by
  induction deps generalizing t with
  | nil => simp at missing
  | cons dep rest ih =>
    rw [foldlM_cons,tally]
    split_ifs with known
    · have later : ∃ dep ∈ rest,dep ∉ d.ids := by
        obtain ⟨other,member,absent⟩ := missing
        rcases mem_cons.mp member with rfl | later
        · exact absurd known absent
        · exact ⟨other,later,absent⟩
      obtain ⟨other,member,absent,result⟩ := ih later _
      exact ⟨other,mem_cons_of_mem _ member,absent,result⟩
    · exact ⟨dep,mem_cons_self,known,rfl⟩

lemma tallyAll_ok (visits : List String) (known : ∀ id ∈ visits,∀ dep ∈ d.dependencies id,dep ∈ d.ids) (t : Tally) :
    ∃ t',d.tallyAll visits t = .ok t' ∧
      (∀ y,t'.inDegree y = t.inDegree y + (visits.count y * (d.dependencies y).length : Nat)) ∧
      ∀ x,t'.dependents x =
        t.dependents x ++ visits.flatMap (fun id => List.replicate ((d.dependencies id).count x) id) := by
  induction visits generalizing t with
  | nil => exact ⟨t,rfl,by simp,by simp⟩
  | cons id rest ih =>
    obtain ⟨t₁,first,degrees,lists⟩ := tally_foldlM id (d.dependencies id) (known id mem_cons_self) t
    obtain ⟨t₂,others,degrees',lists'⟩ := ih (fun id member => known id (mem_cons_of_mem _ member)) t₁
    refine ⟨t₂,?_,?_,?_⟩
    · rw [tallyAll,foldlM_cons,first]
      exact others
    · intro y
      rw [degrees' y,degrees y]
      by_cases same : y = id
      · rw [if_pos same,same,count_cons_self,Nat.succ_mul]
        omega
      · rw [if_neg same,count_cons_of_ne (Ne.symm same)]
        omega
    · intro x
      rw [lists' x,lists x,flatMap_cons,append_assoc]

lemma tallyAll_error (visits : List String) (missing : ∃ id ∈ visits,∃ dep,d.Dangling id dep) (t : Tally) :
    ∃ id dep,d.Dangling id dep ∧ d.tallyAll visits t = .error (.danglingEdge id dep) := by
  induction visits generalizing t with
  | nil => simp at missing
  | cons id rest ih =>
    by_cases here : ∃ dep ∈ d.dependencies id,dep ∉ d.ids
    · obtain ⟨dep,member,absent,result⟩ := tally_foldlM_error id (d.dependencies id) here t
      refine ⟨id,dep,⟨member,absent⟩,?_⟩
      rw [tallyAll,foldlM_cons,result]
      rfl
    · have known : ∀ dep ∈ d.dependencies id,dep ∈ d.ids := by
        intro dep member
        by_contra absent
        exact here ⟨dep,member,absent⟩
      have later : ∃ id ∈ rest,∃ dep,d.Dangling id dep := by
        obtain ⟨other,member,dep,dangles⟩ := missing
        rcases mem_cons.mp member with rfl | later
        · exact absurd ⟨dep,dangles⟩ here
        · exact ⟨other,later,dep,dangles⟩
      obtain ⟨t₁,first,-,-⟩ := tally_foldlM id (d.dependencies id) known t
      obtain ⟨other,dep,dangles,result⟩ := ih later t₁
      refine ⟨other,dep,dangles,?_⟩
      rw [tallyAll,foldlM_cons,first]
      exact result

end Tallying

lemma count_flatMap_replicate (visits : List String) (times : String → Nat) (y : String) :
    (visits.flatMap (fun id => List.replicate (times id) id)).count y = visits.count y * times y := by
  induction visits with
  | nil => simp
  | cons id rest ih =>
    rw [flatMap_cons,count_append,ih,count_replicate]
    by_cases same : id = y
    · simp [same,Nat.succ_mul,Nat.add_comm]
    · simp [same]

lemma count_flatMap_lists (names deps : List String) (distinct : names.Nodup) (known : ∀ dep ∈ deps,dep ∈ names)
    (y : String) (lists : String → List String) (counts : ∀ x,(lists x).count y = deps.count x) :
    (names.flatMap lists).count y = deps.length := by
  have sum : (names.flatMap lists).count y = (names.map (fun x => deps.count x)).sum := by
    rw [count_flatMap]
    exact congrArg List.sum (map_congr_left (fun x _ => counts x))
  rw [sum]
  clear sum counts
  induction deps with
  | nil => simp
  | cons dep rest ih =>
    have others := ih (fun dep member => known dep (mem_cons_of_mem _ member))
    have one := count_eq_one_of_mem distinct (known dep mem_cons_self)
    have split : (names.map (fun x => (dep :: rest).count x)).sum =
        (names.map (fun x => rest.count x)).sum + names.count dep := by
      clear others one known distinct ih
      induction names with
      | nil => rfl
      | cons x names ih =>
        rw [map_cons,sum_cons,map_cons,sum_cons]
        by_cases same : x = dep
        · rw [same,count_cons_self,count_cons_self]
          omega
        · rw [count_cons_of_ne (Ne.symm same),count_cons_of_ne same]
          omega
    rw [split,others,one,length_cons]

section Sorting

variable {visits degrees : List String} (visited : visits.Perm d.ids) (ranged : degrees.Perm d.ids)

include visited

lemma topologicalSort_dangling (missing : ∃ id dep,d.Dangling id dep) :
    ∃ id dep,d.Dangling id dep ∧ d.topologicalSort visits degrees = .error (.danglingEdge id dep) := by
  have inside : ∃ id ∈ visits,∃ dep,d.Dangling id dep := by
    obtain ⟨id,dep,dangles⟩ := missing
    exact ⟨id,visited.mem_iff.mpr (mem_ids_of_dependsOn dangles.1),dep,dangles⟩
  obtain ⟨id,dep,dangles,result⟩ := tallyAll_error visits inside {}
  refine ⟨id,dep,dangles,?_⟩
  rw [topologicalSort,result]
  rfl

include ranged

lemma tallyAll_starts (known : ∀ id dep,¬ d.Dangling id dep) : ∃ t,d.tallyAll visits {} = .ok t ∧
      (∀ x y,y ∈ t.dependents x ↔ d.DependsOn y x) ∧ Kahn.Starts d.ids t.dependents
        ⟨(degrees.filter (fun id => t.inDegree id = 0)).insertionSort (· ≤ ·),t.inDegree,[]⟩ := by
  have inside : ∀ id dep,d.DependsOn id dep → dep ∈ d.ids := by
    intro id dep depends
    by_contra absent
    exact known id dep ⟨depends,absent⟩
  obtain ⟨t,result,counts,lists⟩ := tallyAll_ok visits (fun id _ dep depends => inside id dep depends) {}
  simp only [nil_append,Int.zero_add] at counts lists
  have once : ∀ y,d.dependencies y ≠ [] → visits.count y = 1 := by
    intro y some_
    obtain ⟨dep,depends⟩ := exists_mem_of_ne_nil _ some_
    exact count_eq_one_of_mem (visited.nodup_iff.mpr d.ids_nodup)
      (visited.mem_iff.mpr (mem_ids_of_dependsOn depends))
  have occurrences : ∀ x y,(t.dependents x).count y = (d.dependencies y).count x := by
    intro x y
    rw [lists x,count_flatMap_replicate]
    by_cases empty : d.dependencies y = []
    · simp [empty]
    · rw [once y empty,Nat.one_mul]
  refine ⟨t,result,?_,?_,?_,?_,rfl⟩
  · intro x y
    rw [← count_pos_iff,occurrences,count_pos_iff]
    rfl
  · intro y
    dsimp only
    rw [count_flatMap_lists d.ids (d.dependencies y) d.ids_nodup (inside y) y _ (fun x => occurrences x y),counts y]
    by_cases empty : d.dependencies y = []
    · simp [empty]
    · rw [once y empty,Nat.one_mul]
  · intro y
    rw [mem_insertionSort,mem_filter,ranged.mem_iff,decide_eq_true_iff]
  · exact (perm_insertionSort _ _).nodup_iff.mpr ((ranged.nodup_iff.mpr d.ids_nodup).filter _)

lemma topologicalSort_known (known : ∀ id dep,¬ d.Dangling id dep) :
    (d.topologicalSort visits degrees = .error .cycleDetected ∧ ∃ x,TransGen d.DependsOn x x) ∨
      ∃ order,d.topologicalSort visits degrees = .ok order ∧ IsLeast d.orders order ∧
        ∀ x,¬ TransGen d.DependsOn x x := by
  obtain ⟨t,result,edges,starts⟩ := tallyAll_starts visited ranged known
  have closed : ∀ x ∈ d.ids,∀ y ∈ t.dependents x,y ∈ d.ids :=
    fun x _ y edge => mem_ids_of_dependsOn ((edges x y).mp edge)
  have back : ∀ x y,Kahn.Edge d.ids t.dependents x y ↔ d.DependsOn y x := by
    intro x y
    rw [Kahn.Edge,edges,and_iff_right_iff_imp]
    intro depends
    by_contra absent
    exact known y x ⟨depends,absent⟩
  have swapped : Kahn.Edge d.ids t.dependents = swap d.DependsOn := by
    funext x y
    exact propext (back x y)
  have length := starts.length_iff file_perm d.ids_nodup closed d.ids_length.le
  rw [swapped] at length
  simp only [transGen_swap] at length
  have inv := starts.inv.run file_perm d.ids_nodup closed d.nodes.length
  have dependsOn : ∀ order : List String,(∀ x ∈ order,x ∈ d.ids) →
      (Ordered (Kahn.sources d.ids t.dependents) order ↔ Ordered d.dependencies order) := by
    intro order inside
    apply Ordered.congr
    intro y member x
    rw [Kahn.mem_sources]
    exact back x y
  rw [topologicalSort,result]
  set sorted := (Kahn.run file t.dependents d.nodes.length
    ⟨(degrees.filter (fun id => t.inDegree id = 0)).insertionSort (· ≤ ·),t.inDegree,[]⟩).order with named
  by_cases full : sorted.length = d.ids.length
  · right
    refine ⟨sorted,?_,⟨⟨?_,(dependsOn sorted inv.inside).mp inv.ordered⟩,?_⟩,length.mp full⟩
    · rw [d.ids_length] at full
      exact if_neg (not_not.mpr full)
    · exact (subperm_of_subset inv.nodup inv.inside).perm_of_length_le full.ge
    · rintro other ⟨perm,ordered⟩
      obtain ⟨tail,same,least⟩ := Kahn.run_least file_perm file_sorted d.ids_nodup closed d.nodes.length starts.inv
        (pairwise_insertionSort _ _)
      rw [named,same]
      exact least other perm ((dependsOn other (fun x member => perm.mem_iff.mp member)).mpr ordered)
  · left
    refine ⟨if_pos (fun same => full (same.trans d.ids_length.symm)),?_⟩
    by_contra none_
    exact full (length.mpr (fun x cycle => none_ ⟨x,cycle⟩))

lemma validate_eq_none : d.validate visits degrees = none ↔
    (∀ x,¬ TransGen d.DependsOn x x) ∧ ∀ id dep,¬ d.Dangling id dep := by
  by_cases missing : ∃ id dep,d.Dangling id dep
  · have failing : ∃ id dep,d.Dangling id dep ∧ d.topologicalSort visits degrees = .error (.danglingEdge id dep) :=
      topologicalSort_dangling visited missing
    obtain ⟨id,dep,-,failed⟩ := failing
    rw [validate,failed]
    refine iff_of_false (by simp) ?_
    rintro ⟨-,known⟩
    obtain ⟨id,dep,dangles⟩ := missing
    exact known id dep dangles
  · push Not at missing
    rcases topologicalSort_known visited ranged missing with ⟨failed,x,cycle⟩ | ⟨order,sorted,-,acyclic⟩
    · rw [validate,failed]
      exact iff_of_false (by simp) (fun valid => valid.1 x cycle)
    · rw [validate,sorted]
      exact iff_of_true rfl ⟨acyclic,missing⟩

end Sorting

/-- The sort reports a dependency that is missing, else a cycle exactly if there is one, and
else gives the least of all orders, however the maps are iterated. -/
theorem topologicalSort_canonical (d : DAG) {visits degrees : List String} (visited : visits.Perm d.ids)
    (ranged : degrees.Perm d.ids) :
    ((∃ id dep, d.Dangling id dep) →
      ∃ id dep, d.Dangling id dep ∧ d.topologicalSort visits degrees = .error (.danglingEdge id dep)) ∧
    ((∀ id dep, ¬ d.Dangling id dep) →
      (d.topologicalSort visits degrees = .error .cycleDetected ↔ ∃ x, Relation.TransGen d.DependsOn x x) ∧
      ((∀ x, ¬ Relation.TransGen d.DependsOn x x) →
        ∃ order, d.topologicalSort visits degrees = .ok order ∧ IsLeast d.orders order)) := by
  refine ⟨topologicalSort_dangling visited,fun known => ?_⟩
  rcases topologicalSort_known visited ranged known with ⟨failed,cycle⟩ | ⟨order,sorted,least,acyclic⟩
  · refine ⟨iff_of_true failed cycle,fun acyclic => ?_⟩
    obtain ⟨x,path⟩ := cycle
    exact absurd path (acyclic x)
  · refine ⟨iff_of_false ?_ ?_,fun _ => ⟨order,sorted,least⟩⟩
    · rw [sorted]
      intro failed
      cases failed
    · rintro ⟨x,path⟩
      exact acyclic x path

def chain : DAG := ⟨[("a",⟨"a","TASK",[],["b"]⟩),("b",⟨"b","TASK",[],[]⟩)],by unfold Sorted; decide⟩

theorem topologicalSort_chain :
    ∃ order, chain.topologicalSort ["b","a"] ["a","b"] = .ok order ∧ IsLeast chain.orders order := by
  have all : ∀ id ∈ chain.ids, ∀ dep ∈ chain.dependencies id, id = "a" ∧ dep = "b" := by decide
  have only :=
    fun id dep depends => all id (mem_ids_of_dependsOn depends) dep depends
  have known : ∀ id dep,¬ chain.Dangling id dep := by
    rintro id dep ⟨depends,absent⟩
    rw [(only id dep depends).2] at absent
    exact absent (by decide)
  have acyclic : ∀ x,¬ TransGen chain.DependsOn x x := by
    intro x cycle
    obtain ⟨y,first,_⟩ := TransGen.head'_iff.mp cycle
    obtain ⟨z,_,last⟩ := TransGen.tail'_iff.mp cycle
    have name := (only x y first).1
    rw [(only z x last).2] at name
    exact absurd name (by decide)
  exact ((topologicalSort_canonical chain (by decide) (by decide)).2 known).2 acyclic

example : chain.topologicalSort ["b","a"] ["a","b"] = .ok ["b","a"] := by decide

end DAG

end Tempest.GraphMutator
