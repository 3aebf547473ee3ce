import Mathlib.Data.List.Nodup
import Tempest.Types

/-! The validators of `pkg/validation`. A validator returns its error as data:
which rule was broken and by which value. -/
namespace Tempest.Validation
open List

inductive Error
  | empty (what : String)
  | exceeds (what value : String)
  | mustMatch (what value : String)
  | noSteps
  | duplicateStepID (id : String)
  | requiresHandler (id : String)
  | unknownDependency (id dep : String)
  deriving DecidableEq

def maxStepIDLen : Nat := 64

def isSpace (c : Char) : Bool :=
  c.toNat ∈ [0x09,0x0a,0x0b,0x0c,0x0d,0x20,0x85,0xa0,0x1680,0x2028,0x2029,0x202f,0x205f,0x3000] ∨
    (0x2000 ≤ c.toNat ∧ c.toNat ≤ 0x200a)

def isLower (c : Char) : Bool := 'a' ≤ c ∧ c ≤ 'z'

def isNameChar (c : Char) : Bool := isLower c ∨ ('0' ≤ c ∧ c ≤ '9') ∨ c = '-' ∨ c = '.'

def nameRe (s : String) : Bool :=
  match s.toList with
  | [] => false
  | c :: rest => isLower c ∧ rest.length ≤ 63 ∧ rest.all isNameChar

def validateIdent (what : String) (bound : Nat) (s : String) : Except Error Unit :=
  if s.toList.all isSpace then .error (.empty what)
  else if bound < s.utf8ByteSize then .error (.exceeds what s)
  else if nameRe s then .ok ()
  else .error (.mustMatch what s)

def validateStepID (id : String) : Except Error Unit := validateIdent "step id" maxStepIDLen id

structure StepDef where
  id : String
  handler : String
  dependsOn : List String
  deriving DecidableEq

def ofStepDefinition (s : StepDefinition) : StepDef := ⟨s.id,s.handler,s.dependsOn⟩

def checkDependencies (id : String) (ids : List String) : List String → Except Error Unit
  | [] => .ok ()
  | dep :: rest =>
    if dep ∈ ids then checkDependencies id ids rest else .error (.unknownDependency id dep)

/-- The loop over the steps. A step's own id is declared before its dependencies
are looked up. -/
def checkSteps : List String → List StepDef → Except Error Unit
  | _, [] => .ok ()
  | ids, s :: rest =>
    match validateStepID s.id with
    | .error e => .error e
    | .ok () =>
      if s.id ∈ ids then .error (.duplicateStepID s.id)
      else if s.handler = "" then .error (.requiresHandler s.id)
      else
        match checkDependencies s.id (s.id :: ids) s.dependsOn with
        | .error e => .error e
        | .ok () => checkSteps (s.id :: ids) rest

def validateDefinitionSteps (steps : List StepDef) : Except Error Unit :=
  if steps = [] then .error .noSteps else checkSteps [] steps

lemma nameRe_chars (s : String) (matched : nameRe s = true) : ∀ c ∈ s.toList,isNameChar c = true := by
  unfold nameRe at matched
  cases text : s.toList with
  | nil => intro c member; cases member
  | cons first rest =>
    rw [text] at matched
    simp only [Bool.decide_and,Bool.and_eq_true,decide_eq_true_eq,all_eq_true] at matched
    obtain ⟨lower,_,others⟩ := matched
    intro c member
    rcases mem_cons.mp member with rfl | inside
    · simp [isNameChar,lower]
    · exact others c inside

lemma validateStepID_slash (id : String) (ok : validateStepID id = .ok ()) : '/' ∉ id.toList := by
  intro member
  have matched : nameRe id = true := by
    unfold validateStepID validateIdent at ok
    split_ifs at ok with blank long matched
    exact matched
  have wrong := nameRe_chars id matched '/' member
  exact absurd wrong (by decide)

private lemma checkDependencies_ok (id : String) (ids deps : List String)
    (ok : checkDependencies id ids deps = .ok ()) : ∀ dep ∈ deps,dep ∈ ids := by
  induction deps with
  | nil => intro dep member; cases member
  | cons first rest ih =>
    unfold checkDependencies at ok
    split_ifs at ok with known
    intro dep member
    rcases mem_cons.mp member with rfl | inside
    · exact known
    · exact ih ok dep inside

/-- What an accepted list of steps satisfies. A step may still name itself. -/
structure Accepted (steps : List StepDef) : Prop where
  nonempty : steps ≠ []
  distinct : (steps.map StepDef.id).Nodup
  slashFree : ∀ s ∈ steps, '/' ∉ s.id.toList
  handled : ∀ s ∈ steps, s.handler ≠ ""
  declared : ∀ before s after, steps = before ++ s :: after →
    ∀ dep ∈ s.dependsOn, dep = s.id ∨ dep ∈ before.map StepDef.id

private lemma checkSteps_ok (ids : List String) (steps : List StepDef) (ok : checkSteps ids steps = .ok ()) :
    (∀ s ∈ steps, '/' ∉ s.id.toList ∧ s.handler ≠ "" ∧ s.id ∉ ids) ∧ (steps.map StepDef.id).Nodup ∧
      ∀ before s after,steps = before ++ s :: after →
        ∀ dep ∈ s.dependsOn,dep = s.id ∨ dep ∈ before.map StepDef.id ∨ dep ∈ ids := by
  induction steps generalizing ids with
  | nil =>
    refine ⟨fun s member => absurd member (by simp),nodup_nil,?_⟩
    intro before s after split
    simp at split
  | cons first rest ih =>
    unfold checkSteps at ok
    split at ok
    next => contradiction
    next named =>
      split_ifs at ok with seen bare
      split at ok
      next => contradiction
      next known =>
        obtain ⟨each,distinct,declared⟩ := ih (first.id :: ids) ok
        have slash := validateStepID_slash first.id named
        have deps := checkDependencies_ok first.id (first.id :: ids) first.dependsOn known
        refine ⟨?_,?_,?_⟩
        · intro s member
          rcases mem_cons.mp member with rfl | inside
          · exact ⟨slash,bare,seen⟩
          · obtain ⟨clean,handled,fresh⟩ := each s inside
            exact ⟨clean,handled,fun old => fresh (mem_cons_of_mem _ old)⟩
        · rw [map_cons,nodup_cons]
          refine ⟨?_,distinct⟩
          intro member
          obtain ⟨s,inside,same⟩ := mem_map.mp member
          exact (each s inside).2.2 (by simp [same])
        · intro before s after split dep member
          cases before with
          | nil =>
            obtain ⟨rfl,rfl⟩ := split
            rcases mem_cons.mp (deps dep member) with own | old
            · exact .inl own
            · exact .inr (.inr old)
          | cons head before =>
            obtain ⟨rfl,rfl⟩ := split
            rcases declared before s after rfl dep member with own | earlier | old
            · exact .inl own
            · exact .inr (.inl (by simp [earlier]))
            · rcases mem_cons.mp old with own | older
              · exact .inr (.inl (by simp [own]))
              · exact .inr (.inr older)

lemma validateDefinitionSteps_ok (steps : List StepDef)
    (ok : validateDefinitionSteps steps = .ok ()) : Accepted steps := by
  unfold validateDefinitionSteps at ok
  split_ifs at ok with none
  obtain ⟨each,distinct,declared⟩ := checkSteps_ok [] steps ok
  refine ⟨none,distinct,fun s member => (each s member).1,fun s member => (each s member).2.1,?_⟩
  intro before s after split dep member
  rcases declared before s after split dep member with own | earlier | old
  · exact .inl own
  · exact .inr earlier
  · cases old

end Tempest.Validation
