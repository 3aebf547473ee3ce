import Tempest.Patch

/-! Changes by the tokens of their place. A change below a part of a value is the change
of that part, and a pointer whose tokens need no escape leads to them. -/
open List
namespace Tempest.Deltadiff
open Association

inductive Change
  | add (value : Json)
  | remove
  | replace (value : Json)

structure Edit where
  tokens : List Str
  change : Change

namespace Edit

def run (e : Edit) (target : Json) : Except PatchError Json :=
  match e.change with
  | .add value => addValue target e.tokens value
  | .remove => removeValue target e.tokens
  | .replace value => replaceValue target e.tokens value

def under (tok : Str) (e : Edit) : Edit := ⟨tok :: e.tokens,e.change⟩

end Edit

def runAll (target : Json) (edits : List Edit) : Except PatchError Json := edits.foldlM (fun t e => e.run t) target

variable {node part value : Json} {tok : Str} {tokens : List Str}

lemma getValue_cons (found : child node tok = .ok part) : getValue node (tok :: tokens) = getValue part tokens := by
  rw [getValue,found]
  rfl

lemma assign_cons (found : child node tok = .ok part) :
    assign node (tok :: tokens) value = setChild node tok (assign part tokens value) := by
  rw [assign,found]

lemma child_obj {members : List (Str × Json)} (found : find tok members = some part) :
    child (.obj members) tok = .ok part := by
  rw [child,found]
  rfl

lemma index_eq {n i : Nat} : index tok n = some i ↔ atoi tok = some (i : Int) ∧ i < n := by
  rw [index]
  cases atoi tok with
  | none => simp
  | some j =>
    simp only [Option.ite_none_right_eq_some,Option.some.injEq]
    omega

lemma child_arr {items : List Json} :
    child (.arr items) tok = .ok part ↔ ∃ i,index tok items.length = some i ∧ items[i]? = some part := by
  rw [child]
  cases index tok items.length with
  | none => simp
  | some i =>
    cases found : items[i]? with
    | none | some item => simp [found]

section
variable (found : child node tok = .ok part)
include found

lemma ne_null_of_child : node ≠ .null := by
  rintro rfl
  cases found

lemma updateSliceInParent_cons (newSlice : List Json) : updateSliceInParent node (tok :: tokens) newSlice =
      (updateSliceInParent part tokens newSlice).map (setChild node tok) := by
  cases tokens with
  | nil =>
    cases node with
    | obj members => rfl
    | arr items =>
      obtain ⟨i,place,-⟩ := child_arr.mp found
      have number := (index_eq.mp place).1
      simp [updateSliceInParent,getValue,assign,setChild,number,place,bind,Except.bind,Except.map]
    | _ => cases found
  | cons next rest =>
    rw [updateSliceInParent,updateSliceInParent,getLast?_cons_cons,dropLast_cons_cons,getValue_cons found]
    cases last : (next :: rest).getLast? with
    | none => cases getLast?_eq_none_iff.mp last
    | some key =>
      cases getValue part (next :: rest).dropLast with
      | error e => rfl
      | ok parent =>
        cases parent with
        | obj members => simp only [bind,Except.bind,assign_cons found,Except.map]
        | arr items =>
          simp only [bind,Except.bind,assign_cons found]
          cases atoi key <;> rfl
        | _ => rfl

lemma addValue_cons (inner : part ≠ .null) (below : tokens ≠ []) (value : Json) :
    addValue node (tok :: tokens) value = (addValue part tokens value).map (setChild node tok) := by
  obtain ⟨next,rest,rfl⟩ := exists_cons_of_ne_nil below
  rw [addValue,addValue,getLast?_cons_cons,dropLast_cons_cons,if_neg (ne_null_of_child found),if_neg inner]
  cases last : (next :: rest).getLast? with
  | none => cases getLast?_eq_none_iff.mp last
  | some key =>
    dsimp only
    rw [getValue_cons found]
    cases getValue part (next :: rest).dropLast with
    | error e => rfl
    | ok parent =>
      cases parent with
      | obj members => simp only [bind,Except.bind,assign_cons found,Except.map]
      | arr items =>
        simp only [bind,Except.bind,updateSliceInParent_cons found]
        split_ifs
        · rfl
        · cases index key (items.length + 1) <;> rfl
      | _ => rfl

lemma removeValue_cons (below : tokens ≠ []) :
    removeValue node (tok :: tokens) = (removeValue part tokens).map (setChild node tok) := by
  obtain ⟨next,rest,rfl⟩ := exists_cons_of_ne_nil below
  rw [removeValue,removeValue,getLast?_cons_cons,dropLast_cons_cons,getValue_cons found]
  cases last : (next :: rest).getLast? with
  | none => cases getLast?_eq_none_iff.mp last
  | some key =>
    cases getValue part (next :: rest).dropLast with
    | error e => rfl
    | ok parent =>
      cases parent with
      | obj members =>
        simp only [bind,Except.bind,assign_cons found]
        split_ifs <;> rfl
      | arr items =>
        simp only [bind,Except.bind,updateSliceInParent_cons found]
        cases index key items.length <;> rfl
      | _ => rfl

lemma child_setChild (value : Json) : child (setChild node tok value) tok = .ok value := by
  cases node with
  | obj members =>
    apply child_obj
    rw [find_put,if_pos rfl]
  | arr items =>
    obtain ⟨i,place,-⟩ := child_arr.mp found
    have inside := (index_eq.mp place).2
    rw [setChild,place]
    apply child_arr.mpr
    rw [length_set]
    exact ⟨i,place,getElem?_set_self inside⟩
  | _ => cases found

lemma setChild_setChild (other : Json) :
    setChild (setChild node tok other) tok value = setChild node tok value := by
  cases node with
  | obj members => rw [setChild,setChild,put_put,setChild]
  | arr items =>
    obtain ⟨i,place,-⟩ := child_arr.mp found
    rw [setChild]
    simp only [setChild,length_set,place,set_set]
  | _ => cases found

end

variable {new target : Json} {e : Edit} {edits : List Edit}

lemma assign_ne_null (outer : node ≠ .null) (inner : new ≠ .null) : assign node tokens new ≠ .null := by
  cases tokens with
  | nil => exact inner
  | cons tok rest =>
    rw [assign]
    cases child node tok with
    | error e => exact outer
    | ok part =>
      cases node with
      | null => exact absurd rfl outer
      | arr items =>
        dsimp only [setChild]
        split <;> exact Json.noConfusion
      | _ => exact Json.noConfusion

lemma updateSliceInParent_ne_null {newSlice : List Json} (outer : node ≠ .null)
    (ok : updateSliceInParent node tokens newSlice = .ok value) : value ≠ .null := by
  rw [updateSliceInParent] at ok
  cases last : tokens.getLast? with
  | none =>
    rw [last] at ok
    cases ok
    exact Json.noConfusion
  | some key =>
    rw [last] at ok
    obtain ⟨parent,-,ok⟩ := ok_of_bind ok
    cases parent with
    | obj members =>
      cases ok
      exact assign_ne_null outer Json.noConfusion
    | arr items =>
      dsimp only at ok
      split at ok
      · cases ok
        exact assign_ne_null outer Json.noConfusion
      · cases ok
    | _ => cases ok

lemma removeValue_ne_null (outer : node ≠ .null) (below : tokens ≠ []) (ok : removeValue node tokens = .ok value) :
    value ≠ .null := by
  rw [removeValue] at ok
  cases last : tokens.getLast? with
  | none => exact absurd (getLast?_eq_none_iff.mp last) below
  | some key =>
    rw [last] at ok
    obtain ⟨parent,-,ok⟩ := ok_of_bind ok
    cases parent with
    | obj members =>
      dsimp only at ok
      split_ifs at ok
      cases ok
      exact assign_ne_null outer Json.noConfusion
    | arr items =>
      dsimp only at ok
      split at ok
      · exact updateSliceInParent_ne_null outer ok
      · cases ok
    | _ => cases ok

lemma addValue_ne_null (outer : node ≠ .null) (below : tokens ≠ []) (ok : addValue node tokens new = .ok value) :
    value ≠ .null := by
  rw [addValue,if_neg outer] at ok
  cases last : tokens.getLast? with
  | none => exact absurd (getLast?_eq_none_iff.mp last) below
  | some key =>
    rw [last] at ok
    obtain ⟨parent,-,ok⟩ := ok_of_bind ok
    cases parent with
    | obj members =>
      cases ok
      exact assign_ne_null outer Json.noConfusion
    | arr items =>
      dsimp only at ok
      split_ifs at ok
      · exact updateSliceInParent_ne_null outer ok
      · split at ok
        · exact updateSliceInParent_ne_null outer ok
        · cases ok
    | _ => cases ok

lemma replaceValue_cons (found : child node tok = .ok part) (inner : part ≠ .null) (below : tokens ≠ []) (value : Json) :
    replaceValue node (tok :: tokens) value = (replaceValue part tokens value).map (setChild node tok) := by
  rw [replaceValue,replaceValue,removeValue_cons found below]
  cases removed : removeValue part tokens with
  | error e => rfl
  | ok rest =>
    have added := addValue_cons (child_setChild found rest) (removeValue_ne_null inner below removed) below value
    have merged : setChild (setChild node tok rest) tok = setChild node tok :=
      funext (fun new => setChild_setChild found rest)
    rw [merged] at added
    exact added

namespace Edit

lemma run_under (found : child node tok = .ok part) (inner : part ≠ .null) (below : e.tokens ≠ []) :
    (e.under tok).run node = (e.run part).map (setChild node tok) := by
  obtain ⟨tokens,change⟩ := e
  cases change with
  | add value => exact addValue_cons found inner below value
  | remove => exact removeValue_cons found below
  | replace value => exact replaceValue_cons found inner below value

lemma run_ne_null (outer : node ≠ .null) (below : e.tokens ≠ []) (ok : e.run node = .ok value) :
    value ≠ .null := by
  obtain ⟨tokens,change⟩ := e
  cases change with
  | add new => exact addValue_ne_null outer below ok
  | remove => exact removeValue_ne_null outer below ok
  | replace new =>
    obtain ⟨rest,removed,ok⟩ := ok_of_bind ok
    exact addValue_ne_null (removeValue_ne_null outer below removed) below ok

end Edit

lemma runAll_nil (target : Json) : runAll target [] = .ok target := rfl

lemma runAll_cons (target : Json) (e : Edit) (edits : List Edit) :
    runAll target (e :: edits) = e.run target >>= fun next => runAll next edits := rfl

lemma runAll_append {middle : Json} {first second : List Edit} (ok : runAll target first = .ok middle) :
    runAll target (first ++ second) = runAll middle second := by
  rw [runAll,foldlM_append,← runAll,ok]
  rfl

lemma runAll_under (found : child node tok = .ok part) (inner : part ≠ .null)
    (below : ∀ e ∈ edits,e.tokens ≠ []) (ok : runAll part edits = .ok value) (same : setChild node tok part = node) :
    runAll node (edits.map (Edit.under tok)) = .ok (setChild node tok value) := by
  induction edits generalizing node part with
  | nil =>
    cases ok
    rw [same]
    rfl
  | cons e rest ih =>
    obtain ⟨first,later⟩ := forall_mem_cons.mp below
    rw [runAll_cons] at ok
    obtain ⟨next,ran,ok⟩ := ok_of_bind ok
    have following := ih (child_setChild found next) (Edit.run_ne_null inner first ran) later ok
      (setChild_setChild found next)
    rw [setChild_setChild found] at following
    rw [map_cons,runAll_cons,Edit.run_under found inner first,ran]
    exact following

def pointer (tokens : List Str) : Str := tokens.flatMap (fun tok => '/' :: tok)

def Clean (key : Str) : Prop := '/' ∉ key ∧ ¬ ['~','0'] <:+: key ∧ ¬ ['~','1'] <:+: key

instance (key : Str) : Decidable (Clean key) := inferInstanceAs (Decidable (_ ∧ _ ∧ _))

lemma replacePair_free {first second new : Char} {text : Str} (free : ¬ [first,second] <:+: text) :
    replacePair first second new text = text := by
  fun_induction replacePair first second new text with
  | case1 a b rest both ih =>
    obtain ⟨rfl,rfl⟩ := both
    exact absurd ⟨[],rest,rfl⟩ free
  | case2 a b rest other ih => rw [ih (fun inside => free (inside.trans (infix_cons infix_rfl)))]
  | case3 rest short => rfl

lemma Clean.unescape {key : Str} (clean : Clean key) : unescape key = key := by
  rw [Deltadiff.unescape,replacePair_free clean.2.2,replacePair_free clean.2.1]

lemma pointer_cons (tok : Str) (rest : List Str) : pointer (tok :: rest) = '/' :: ['/'].intercalate (tok :: rest) := by
  induction rest generalizing tok with
  | nil => simp [pointer]
  | cons next rest ih =>
    have tail := ih next
    rw [pointer,flatMap_cons,← pointer,tail]
    simp

lemma parsePointer_pointer (clean : ∀ tok ∈ tokens,Clean tok) : parsePointer (pointer tokens) = .ok tokens := by
  cases tokens with
  | nil => rfl
  | cons tok rest =>
    have parts := splitOn_intercalate '/' (fun tok member => (clean tok member).1) (cons_ne_nil tok rest)
    have plain :=
      (map_congr_left (fun tok member => (clean tok member).unescape)).trans (map_id _)
    rw [pointer_cons,parsePointer,parts,plain]

namespace Edit

def render (path : Str) (e : Edit) : PatchOperation :=
  match e.change with
  | .add value => ⟨.add,path ++ pointer e.tokens,[],value⟩
  | .remove => ⟨.remove,path ++ pointer e.tokens,[],.null⟩
  | .replace value => ⟨.replace,path ++ pointer e.tokens,[],value⟩

lemma applyOperation_render (clean : ∀ tok ∈ e.tokens,Clean tok) (target : Json) :
    applyOperation target (e.render []) = e.run target := by
  obtain ⟨tokens,change⟩ := e
  have parsed := parsePointer_pointer clean
  cases change with
  | add value | remove | replace value => rw [applyOperation,render,nil_append,parsed]; rfl

end Edit

lemma applyFrom_render (clean : ∀ e ∈ edits,∀ tok ∈ e.tokens,Clean tok)
    (ok : runAll target edits = .ok value) (i : Nat) : applyFrom i target (edits.map (Edit.render [])) = .ok value := by
  induction edits generalizing target i with
  | nil =>
    cases ok
    rfl
  | cons e rest ih =>
    obtain ⟨first,later⟩ := forall_mem_cons.mp clean
    rw [runAll_cons] at ok
    obtain ⟨next,ran,ok⟩ := ok_of_bind ok
    rw [map_cons,applyFrom,Edit.applyOperation_render first,ran]
    exact ih later ok (i + 1)

end Tempest.Deltadiff
