import Tempest.Lib.Dependency
import Mathlib.Data.Set.Finite.List

/-! Kahn's algorithm. Each name has a count of the edges that lead to it from names that
are not listed yet, and the names whose count is zero wait to be listed. How a name
joins the waiting ones is left open: behind them, or at its place in an order. -/
namespace Kahn
open Dependency Relation List

structure State (ι : Type) where
  ready : List ι
  degree : ι → Int
  order : List ι := []

variable {ι : Type} [DecidableEq ι]

def lower (file : List ι → ι → List ι) (waiting : List ι × (ι → Int)) (y : ι) : List ι × (ι → Int) :=
  let degree := Function.update waiting.2 y (waiting.2 y - 1)
  (if degree y = 0 then file waiting.1 y else waiting.1,degree)

def run (file : List ι → ι → List ι) (out : ι → List ι) : Nat → State ι → State ι
  | 0, st => st
  | fuel + 1, st =>
    match st.ready with
    | [] => st
    | x :: rest =>
      let waiting := (out x).foldl (lower file) (rest,st.degree)
      run file out fuel ⟨waiting.1,waiting.2,st.order ++ [x]⟩

def pending (nodes done : List ι) : List ι := nodes.filter (fun x => x ∉ done)

def sources (nodes : List ι) (out : ι → List ι) (y : ι) : List ι := nodes.filter (fun x => y ∈ out x)

/-- The counts are exact, and what waits is what may be listed next. -/
structure Inv (nodes : List ι) (out : ι → List ι) (st : State ι) : Prop where
  degree : ∀ y, st.degree y = (((pending nodes st.order).flatMap out).count y : Int)
  ready : ∀ y, y ∈ st.ready ↔ y ∈ nodes ∧ y ∉ st.order ∧ st.degree y = 0
  once : st.ready.Nodup
  nodup : st.order.Nodup
  inside : ∀ x ∈ st.order, x ∈ nodes
  ordered : Ordered (sources nodes out) st.order

def Edge (nodes : List ι) (out : ι → List ι) (x y : ι) : Prop := x ∈ nodes ∧ y ∈ out x

variable {file : List ι → ι → List ι} {nodes : List ι} {out : ι → List ι}

variable {done : List ι} {x y : ι} {st : State ι}

lemma mem_pending : x ∈ pending nodes done ↔ x ∈ nodes ∧ x ∉ done := by
  simp [pending]

lemma mem_sources : x ∈ sources nodes out y ↔ x ∈ nodes ∧ y ∈ out x := by
  simp [sources]

lemma pending_perm (distinct : nodes.Nodup) (member : x ∈ nodes) (new : x ∉ done) :
    (pending nodes done).Perm (x :: pending nodes (done ++ [x])) := by
  unfold pending
  apply (perm_ext_iff_of_nodup (distinct.filter _) _).mpr
  · intro y
    rw [mem_filter]
    by_cases same : y = x
    · simp [same,member,new]
    · simp [same]
  · exact nodup_cons.mpr ⟨by simp,distinct.filter _⟩

lemma count_pending (distinct : nodes.Nodup) (member : x ∈ nodes) (new : x ∉ done) (y : ι) :
    ((pending nodes done).flatMap out).count y =
      (out x).count y + ((pending nodes (done ++ [x])).flatMap out).count y := by
  rw [((pending_perm distinct member new).flatMap_right out).count_eq,flatMap_cons,count_append]

lemma count_pending_eq_zero :
    ((pending nodes done).flatMap out).count y = 0 ↔ ∀ x ∈ sources nodes out y,x ∈ done := by
  rw [count_eq_zero,mem_flatMap]
  constructor
  · intro none_ x source
    obtain ⟨member,edge⟩ := mem_sources.mp source
    by_contra new
    exact none_ ⟨x,mem_pending.mpr ⟨member,new⟩,edge⟩
  · rintro all ⟨x,left,edge⟩
    obtain ⟨member,new⟩ := mem_pending.mp left
    exact new (all x (mem_sources.mpr ⟨member,edge⟩))

lemma lower_foldl (files : ∀ waiting y,(file waiting y).Perm (y :: waiting)) (ys : List ι) (q : List ι) (d : ι → Int)
    (enough : ∀ y,(ys.count y : Int) ≤ d y) (zero : ∀ y ∈ q,d y = 0) (once : q.Nodup) :
    (∀ y,(ys.foldl (lower file) (q,d)).2 y = d y - ys.count y) ∧ (ys.foldl (lower file) (q,d)).1.Nodup ∧
      ∀ y,y ∈ (ys.foldl (lower file) (q,d)).1 ↔ y ∈ q ∨ y ∈ ys ∧ d y = ys.count y := by
  induction ys generalizing q d with
  | nil => simp [once]
  | cons x rest ih =>
    have some_ : (rest.count x) + 1 ≤ d x := by simpa using enough x
    let d' := Function.update d x (d x - 1)
    have same : d' x = d x - 1 := Function.update_self ..
    have other : ∀ y,y ≠ x → d' y = d y := fun y apart => Function.update_of_ne apart ..
    have counts : ∀ y,d' y - rest.count y = d y - (x :: rest).count y := by
      intro y
      by_cases apart : y = x
      · rw [apart,count_cons_self]
        omega
      · rw [other y apart,count_cons_of_ne (Ne.symm apart)]
    have enough' : ∀ y,(rest.count y) ≤ d' y := by
      intro y
      have before := enough y
      have after := counts y
      omega
    have fresh : x ∉ q := fun waits => by
      have := zero x waits
      omega
    rw [foldl_cons]
    -- If the count is zero now, no further edge to the name is left in the list.
    by_cases last : d' x = 0
    · have step : lower file (q,d) x = (file q x,d') := by
        exact congrArg (fun w => (w,d')) (if_pos last)
      have gone : x ∉ rest := fun member => by
        have := count_pos_iff.mpr member
        omega
      obtain ⟨degrees,nodup,members⟩ := ih (file q x) d' enough' (by
        intro y waits
        rcases mem_cons.mp ((files q x).mem_iff.mp waits) with rfl | old
        · exact last
        · rw [other y (fun same => fresh (same ▸ old))]
          exact zero y old) ((files q x).nodup_iff.mpr (nodup_cons.mpr ⟨fresh,once⟩))
      rw [step]
      refine ⟨fun y => (degrees y).trans (counts y),nodup,fun y => ?_⟩
      rw [members,(files q x).mem_iff,mem_cons]
      by_cases apart : y = x
      · subst apart
        have none_ := count_eq_zero.mpr gone
        have one : d y = ((y :: rest).count y : Int) := by
          rw [count_cons_self]
          omega
        simp [one]
      · rw [other y apart,count_cons_of_ne (Ne.symm apart)]
        simp [apart]
    · have step : lower file (q,d) x = (q,d') := by
        exact congrArg (fun w => (w,d')) (if_neg last)
      obtain ⟨degrees,nodup,members⟩ := ih q d' enough' (by
        intro y waits
        rw [other y (fun same => fresh (same ▸ waits))]
        exact zero y waits) once
      rw [step]
      refine ⟨fun y => (degrees y).trans (counts y),nodup,fun y => ?_⟩
      rw [members,mem_cons]
      have balance := counts y
      by_cases apart : y = x
      · subst apart
        constructor
        · rintro (old | ⟨_,even⟩)
          · exact .inl old
          · exact .inr ⟨.inl rfl,by omega⟩
        · rintro (old | ⟨_,even⟩)
          · exact .inl old
          · refine .inr ⟨count_pos_iff.mp ?_,by omega⟩
            omega
      · rw [other y apart,count_cons_of_ne (Ne.symm apart)]
        simp [apart]

section Run

variable (files : ∀ waiting y, (file waiting y).Perm (y :: waiting)) (distinct : nodes.Nodup)
  (closed : ∀ x ∈ nodes, ∀ y ∈ out x, y ∈ nodes)

include files distinct closed

lemma Inv.step (inv : Inv nodes out st) {rest : List ι} (head : st.ready = x :: rest) :
    Inv nodes out ⟨((out x).foldl (lower file) (rest,st.degree)).1,((out x).foldl (lower file) (rest,st.degree)).2,
      st.order ++ [x]⟩ := by
  obtain ⟨member,new,free⟩ := (inv.ready x).mp (by rw [head]; exact mem_cons_self)
  have once := inv.once
  rw [head] at once
  obtain ⟨apart,once'⟩ := nodup_cons.mp once
  have counts : ∀ y,((pending nodes st.order).flatMap out).count y =
      (out x).count y + ((pending nodes (st.order ++ [x])).flatMap out).count y := count_pending distinct member new
  have known : ∀ z ∈ sources nodes out x,z ∈ st.order := by
    have zero := inv.degree x
    rw [free] at zero
    exact count_pending_eq_zero.mp (by exact_mod_cast zero.symm)
  have waiting : ∀ y,y ∈ rest → y ∈ st.ready := fun y later => by rw [head]; exact mem_cons_of_mem x later
  obtain ⟨degrees,nodup,members⟩ := lower_foldl files (out x) rest st.degree
    (by intro y; rw [inv.degree y,counts y]; push_cast; omega)
    (fun y later => ((inv.ready y).mp (waiting y later)).2.2) once'
  refine ⟨?_,?_,nodup,?_,?_,inv.ordered.snoc known⟩
  · intro y
    dsimp only
    rw [degrees y,inv.degree y,counts y]
    omega
  · intro y
    dsimp only
    rw [members y,degrees y,mem_append,mem_singleton]
    constructor
    · rintro (later | ⟨edge,even⟩)
      · obtain ⟨inside,undone,zero⟩ := (inv.ready y).mp (waiting y later)
        have none_ := inv.degree y
        rw [counts y] at none_
        refine ⟨inside,?_,by omega⟩
        rintro (done | rfl)
        · exact undone done
        · exact apart later
      · refine ⟨closed x member y edge,?_,by omega⟩
        rintro (done | rfl)
        · exact new (inv.ordered.rank y done x (mem_sources.mpr ⟨member,edge⟩)).1
        · exact new (known y (mem_sources.mpr ⟨member,edge⟩))
    · rintro ⟨inside,undone,even⟩
      by_cases edge : y ∈ out x
      · exact .inr ⟨edge,by omega⟩
      · left
        have none_ := count_eq_zero.mpr edge
        have ready := (inv.ready y).mpr ⟨inside,fun done => undone (.inl done),by omega⟩
        rw [head] at ready
        exact (mem_cons.mp ready).resolve_left (fun same => undone (.inr same))
  · exact nodup_append.mpr ⟨inv.nodup,nodup_singleton x,by
      rintro a done b here rfl
      exact new (mem_singleton.mp here ▸ done)⟩
  · intro y done
    rcases mem_append.mp done with old | here
    · exact inv.inside y old
    · rw [mem_singleton.mp here]
      exact member

lemma Inv.run (fuel : Nat) (inv : Inv nodes out st) : Inv nodes out (run file out fuel st) := by
  induction fuel generalizing st with
  | zero => exact inv
  | succ fuel ih =>
    unfold Kahn.run
    split
    · exact inv
    · next x rest head => exact ih (inv.step files distinct closed head)

lemma run_ready (fuel : Nat) (inv : Inv nodes out st) (enough : nodes.length ≤ fuel + st.order.length) :
    (run file out fuel st).ready = [] := by
  induction fuel generalizing st with
  | zero =>
    rw [Kahn.run]
    by_contra some_
    obtain ⟨x,rest,head⟩ := exists_cons_of_ne_nil some_
    obtain ⟨member,new,_⟩ := (inv.ready x).mp (by rw [head]; exact mem_cons_self)
    have longer : (x :: st.order).length ≤ nodes.length := by
      apply (subperm_of_subset (nodup_cons.mpr ⟨new,inv.nodup⟩) _).length_le
      intro y listed
      rcases mem_cons.mp listed with rfl | old
      · exact member
      · exact inv.inside y old
    rw [length_cons] at longer
    omega
  | succ fuel ih =>
    unfold Kahn.run
    split
    · next none_ => exact none_
    · next x rest head =>
      apply ih (inv.step files distinct closed head)
      rw [length_append,length_singleton]
      omega

end Run

omit [DecidableEq ι] in
lemma wellFounded_of_acyclic {r : ι → ι → Prop} (nodes : List ι) (acyclic : ∀ x,¬ TransGen r x x) :
    WellFounded (fun x y : {x // x ∈ nodes} => TransGen r x.1 y.1) := by
  have : IsTrans {x // x ∈ nodes} (fun x y => TransGen r x.1 y.1) := ⟨fun _ _ _ first second => first.trans second⟩
  have : Std.Irrefl (fun x y : {x // x ∈ nodes} => TransGen r x.1 y.1) := ⟨fun x cycle => acyclic x.1 cycle⟩
  have : Finite {x // x ∈ nodes} := finite_toSet nodes
  exact Finite.wellFounded_of_trans_of_irrefl _

lemma Inv.perm_of_acyclic (inv : Inv nodes out st) (distinct : nodes.Nodup) (ended : st.ready = [])
    (acyclic : ∀ x,¬ TransGen (Edge nodes out) x x) : st.order.Perm nodes := by
  have all : ∀ x ∈ nodes,x ∈ st.order := by
    by_contra left
    push Not at left
    obtain ⟨x,member,new⟩ := left
    have wf := wellFounded_of_acyclic nodes acyclic
    obtain ⟨⟨y,inside⟩,undone,least⟩ := wf.has_min {x | x.1 ∉ st.order} ⟨⟨x,member⟩,new⟩
    have free : st.degree y = 0 := by
      rw [inv.degree y]
      norm_cast
      rw [count_pending_eq_zero]
      intro z source
      by_contra undone'
      obtain ⟨member',edge⟩ := mem_sources.mp source
      exact least ⟨z,member'⟩ undone' (TransGen.single ⟨member',edge⟩)
    have waits := (inv.ready y).mpr ⟨inside,undone,free⟩
    rw [ended] at waits
    cases waits
  exact (perm_ext_iff_of_nodup inv.nodup distinct).mpr (fun x => ⟨inv.inside x,all x⟩)

lemma acyclic_of_ordered {order : List ι} (ordered : Ordered (sources nodes out) order)
    (all : ∀ x ∈ nodes,x ∈ order) (closed : ∀ x ∈ nodes,∀ y ∈ out x,y ∈ nodes) (x : ι) :
    ¬ TransGen (Edge nodes out) x x := by
  have rises : ∀ x y,TransGen (Edge nodes out) x y → order.idxOf x < order.idxOf y := by
    intro x y path
    have one : ∀ x y,Edge nodes out x y → order.idxOf x < order.idxOf y := by
      rintro x y ⟨member,edge⟩
      exact (ordered.rank y (all y (closed x member y edge)) x (mem_sources.mpr ⟨member,edge⟩)).2
    induction path with
    | single edge => exact one _ _ edge
    | tail _ edge ih => exact ih.trans (one _ _ edge)
  intro cycle
  exact lt_irrefl _ (rises x x cycle)

section Start

/-- The counts before the loop, and the names that have none. -/
structure Starts (nodes : List ι) (out : ι → List ι) (st : State ι) : Prop where
  degree : ∀ y, st.degree y = ((nodes.flatMap out).count y : Int)
  ready : ∀ y, y ∈ st.ready ↔ y ∈ nodes ∧ st.degree y = 0
  once : st.ready.Nodup
  order : st.order = []

variable (files : ∀ waiting y, (file waiting y).Perm (y :: waiting)) (distinct : nodes.Nodup)
  (closed : ∀ x ∈ nodes, ∀ y ∈ out x, y ∈ nodes)

lemma Starts.inv (starts : Starts nodes out st) : Inv nodes out st := by
  have all : pending nodes st.order = nodes := by
    rw [starts.order]
    simp [pending]
  refine ⟨?_,?_,starts.once,?_,?_,?_⟩
  · rw [all]
    exact starts.degree
  · intro y
    rw [starts.ready,starts.order]
    simp
  · rw [starts.order]
    exact nodup_nil
  · rw [starts.order]
    simp
  · rw [starts.order]
    exact Ordered.nil

include files distinct closed

lemma Starts.length_iff (starts : Starts nodes out st) {fuel : Nat} (enough : nodes.length ≤ fuel) :
    (run file out fuel st).order.length = nodes.length ↔ ∀ x,¬ TransGen (Edge nodes out) x x := by
  have inv := starts.inv.run files distinct closed fuel
  have ended := run_ready files distinct closed fuel starts.inv (by omega)
  constructor
  · intro same x
    have perm :=
      (subperm_of_subset inv.nodup inv.inside).perm_of_length_le same.ge
    exact acyclic_of_ordered inv.ordered (fun x member => perm.mem_iff.mpr member) closed x
  · intro acyclic
    exact (inv.perm_of_acyclic distinct ended acyclic).length_eq

end Start

lemma run_least {κ : Type} [LinearOrder κ] {nodes : List κ} {out : κ → List κ} {file : List κ → κ → List κ}
    (files : ∀ waiting y,(file waiting y).Perm (y :: waiting)) (sorts : ∀ waiting y,(file waiting y).Pairwise (· ≤ ·))
    (distinct : nodes.Nodup) (closed : ∀ x ∈ nodes,∀ y ∈ out x,y ∈ nodes) (fuel : Nat) {st : State κ}
    (inv : Inv nodes out st) (sorted : st.ready.Pairwise (· ≤ ·)) :
    ∃ tail,(run file out fuel st).order = st.order ++ tail ∧
      ∀ rest,(st.order ++ rest).Perm nodes → Ordered (sources nodes out) (st.order ++ rest) → tail ≤ rest := by
  induction fuel generalizing st with
  | zero => exact ⟨[],by simp [Kahn.run],fun rest _ _ => not_lt.mp (not_lt_nil rest)⟩
  | succ fuel ih =>
    unfold Kahn.run
    split
    · exact ⟨[],by simp,fun rest _ _ => not_lt.mp (not_lt_nil rest)⟩
    · next x waiting head =>
      have keeps : ∀ (ys q : List κ) (d : κ → Int),q.Pairwise (· ≤ ·) →
          (ys.foldl (lower file) (q,d)).1.Pairwise (· ≤ ·) := by
        intro ys
        induction ys with
        | nil => exact fun _ _ sorted => sorted
        | cons y ys ih =>
          intro q d sorted
          apply ih
          split_ifs
          · exact sorts q y
          · exact sorted
      rw [head] at sorted
      obtain ⟨first,sorted'⟩ := pairwise_cons.mp sorted
      obtain ⟨tail,result,least⟩ := ih (inv.step files distinct closed head) (keeps (out x) waiting st.degree sorted')
      refine ⟨x :: tail,by rw [result]; simp,?_⟩
      intro rest perm ordered
      obtain ⟨member,new,_⟩ := (inv.ready x).mp (by rw [head]; exact mem_cons_self)
      cases rest with
      | nil => exact absurd (perm.mem_iff.mpr member) (by simpa using new)
      | cons y rest =>
        have nodup := perm.nodup_iff.mpr distinct
        have waits : y ∈ st.ready := by
          refine (inv.ready y).mpr ⟨perm.mem_iff.mp (by simp),?_,?_⟩
          · intro done
            exact (nodup_append.mp nodup).2.2 y done y mem_cons_self rfl
          · rw [inv.degree y]
            norm_cast
            rw [count_pending_eq_zero]
            exact ordered st.order y rest rfl
        rw [head] at waits
        rcases mem_cons.mp waits with rfl | later
        · exact cons_le_cons y (least rest (by simpa using perm) (by simpa using ordered))
        · rcases (first y later).lt_or_eq with less | rfl
          · exact le_of_lt (cons_lt_cons_iff.mpr (.inl less))
          · exact cons_le_cons x (least rest (by simpa using perm) (by simpa using ordered))

end Kahn
