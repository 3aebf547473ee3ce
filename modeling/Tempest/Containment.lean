import Tempest.Types
import Tempest.Lib.Paths
import Tempest.Lib.Text

/-! Which files two components may touch. The file provider of the vault cleans a key and
joins it to its base directory. The sandbox joins a path to its root and compares the
beginning of the two texts, which is not the same as lying below the root. -/
open List
namespace Tempest.Containment

namespace Filepath

def clean (path : String) : String := String.ofList (Paths.clean '/' '.' path.toList)

def join (base path : String) : String := String.ofList (Paths.join '/' '.' base.toList path.toList)

def isAbs (path : String) : Bool := Text.hasPrefix "/" path

def abs (wd : Option String) (path : String) : String :=
  if isAbs path then clean path
  else match wd with
    | some wd => join wd path
    | none => ""

def place (path : String) : Paths.Place '/' '.' := Paths.read '/' '.' path.toList

def Within (base path : String) : Prop := Paths.Within '/' '.' base.toList path.toList

lemma slash_ne_dot : '/' ≠ '.' := by decide

lemma clean_eq_iff (first second : String) : clean first = clean second ↔ place first = place second := by
  rw [clean,clean,String.ofList_inj]
  exact Paths.clean_eq_iff slash_ne_dot _ _

end Filepath

open Filepath

inductive SecretError where
  | invalidSecretKey (message : String)
  deriving DecidableEq

structure FileProvider where
  baseDir : String

section FileProvider

variable (quote : String → String)

def FileProvider.resolvePath (f : FileProvider) (key : String) : Except SecretError String :=
  let cleaned := clean key
  if Text.contains cleaned ".." || Text.hasPrefix "/" cleaned then
    .error (.invalidSecretKey ("vault: invalid secret key name: invalid secret key path " ++ quote key))
  else .ok (join f.baseDir cleaned)

variable {quote} {f : FileProvider} {key path : String}

lemma place_of_resolved (resolved : f.resolvePath quote key = .ok path) :
    path = join f.baseDir (clean key) ∧ ∃ names,place key = .relative 0 names := by
  simp only [FileProvider.resolvePath] at resolved
  split at resolved
  · cases resolved
  rename_i passed
  refine ⟨(Except.ok.inj resolved).symm,?_⟩
  simp only [Text.contains,Text.hasPrefix,clean,Paths.clean,String.toList_ofList,Bool.or_eq_true,not_or,
    decide_eq_true_eq, isPrefixOf_iff_prefix] at passed
  obtain ⟨noDots,noSlash⟩ := passed
  cases found : place key with
  | rooted names =>
    rw [place] at found
    rw [found] at noSlash
    exact absurd (by simp [Paths.Place.text]) noSlash
  | relative ups names =>
    rw [place] at found
    rw [found] at noDots
    cases ups with
    | zero => exact ⟨names,rfl⟩
    | succ ups => exact absurd (Paths.Place.text_climbing ups names).isInfix noDots

lemma place_resolved (resolved : f.resolvePath quote key = .ok path) :
    ∃ names,place key = .relative 0 names ∧ place path = (place f.baseDir).descend names := by
  obtain ⟨rfl,names,down⟩ := place_of_resolved resolved
  refine ⟨names,down,?_⟩
  have walked := Paths.read_join_clean slash_ne_dot down f.baseDir.toList
  simpa [place,join,clean] using walked

variable {other : String}

lemma clean_eq_of_resolved (resolved : f.resolvePath quote key = .ok path)
    (resolved' : f.resolvePath quote other = .ok path) : clean key = clean other := by
  obtain ⟨names,down,below⟩ := place_resolved resolved
  obtain ⟨names',down',below'⟩ := place_resolved resolved'
  have same := Paths.Place.descend_injective _ (below.symm.trans below')
  rw [clean_eq_iff,down,down',same]

/-- A key is refused or its path lies at or below the base directory, and keys with one path
have one cleaned form. -/
theorem resolvePath_contained (quote : String → String) (f : FileProvider) :
    (∀ key path, f.resolvePath quote key = .ok path → Within f.baseDir path) ∧
      ∀ key other path, f.resolvePath quote key = .ok path → f.resolvePath quote other = .ok path →
        clean key = clean other := by
  constructor
  · intro key path resolved
    obtain ⟨names,-,below⟩ := place_resolved resolved
    exact ⟨names,below⟩
  · intro key other path resolved resolved'
    exact clean_eq_of_resolved resolved resolved'

theorem resolvePath_contained_secrets :
    Within "/run/secrets" "/run/secrets/db/pass" ∧ clean "db/../db/./pass" = clean "db//pass" :=
  have first : FileProvider.resolvePath id ⟨"/run/secrets"⟩ "db/../db/./pass" = .ok "/run/secrets/db/pass" := by decide
  have second : FileProvider.resolvePath id ⟨"/run/secrets"⟩ "db//pass" = .ok "/run/secrets/db/pass" := by decide
  ⟨(resolvePath_contained id ⟨"/run/secrets"⟩).1 _ _ first,(resolvePath_contained id ⟨"/run/secrets"⟩).2 _ _ _ first second⟩

end FileProvider

structure FileSystem where
  root : String

/-- The one call to the operating system that an operation ends in. -/
inductive Access where
  | readFile (path : String)
  | writeFile (path : String) (data : List UInt8)
  | readDir (path : String)
  deriving DecidableEq

def Access.path : Access → String
  | readFile path => path
  | writeFile path _ => path
  | readDir path => path

namespace FileSystem

variable (wd : Option String) (fs : FileSystem)

def isAllowed (path : String) : Bool := Text.hasPrefix (abs wd fs.root) (abs wd path)

def guarded (path : String) (access : String → Access) : Except String Access :=
  let full := join fs.root path
  if fs.isAllowed wd full then .ok (access full) else .error ("access denied: " ++ path)

def read (path : String) : Except String Access := fs.guarded wd path .readFile

def write (path : String) (data : List UInt8) : Except String Access :=
  fs.guarded wd path (.writeFile · data)

def list (path : String) : Except String Access := fs.guarded wd path .readDir

def Contained (path : String) : Prop :=
  ∀ access, fs.read wd path = .ok access ∨ (∃ data, fs.write wd path data = .ok access) ∨ fs.list wd path = .ok access →
    Within fs.root access.path

end FileSystem

/-- The path climbs over the last names of the root, and of the names it then goes down the
first ones are these again, but for the last one, which is longer. -/
def ClimbsToLongerName (root path : String) : Prop :=
  match place root,(Paths.Place.relative 0 [] : Paths.Place '/' '.').walk (path.toList.splitOn '/') with
  | .rooted names,.relative ups down =>
    Paths.Outgrown ((names.drop (names.length - ups)).map (·.val)) (down.map (·.val))
  | _,_ => False

section FileSystem

variable {wd : Option String} {fs : FileSystem} {path : String}

lemma contained_iff_allowed :
    fs.Contained wd path ↔ (fs.isAllowed wd (join fs.root path) = true → Within fs.root (join fs.root path)) := by
  constructor
  · intro contained allowed
    exact contained (.readFile (join fs.root path)) (.inl (if_pos allowed))
  · intro allowed access reached
    have shape : fs.isAllowed wd (join fs.root path) = true ∧ access.path = join fs.root path := by
      rcases reached with reached | ⟨data,reached⟩ | reached
      all_goals
        simp only [FileSystem.read,FileSystem.write,FileSystem.list,FileSystem.guarded] at reached
        split at reached
        · cases reached
          exact ⟨‹_›,rfl⟩
        · cases reached
    rw [shape.2]
    exact allowed shape.1

lemma place_of_isAbs (absolute : isAbs path = true) : ∃ names,place path = .rooted names := by
  obtain ⟨rest,whole⟩ := isPrefixOf_iff_prefix.mp absolute
  rw [place,← whole]
  exact Paths.read_rooted rest

lemma abs_of_isAbs (absolute : isAbs path = true) : abs wd path = clean path := if_pos absolute

lemma isAbs_rooted (names : List (Paths.Name '/' '.')) :
    isAbs (String.ofList (Paths.Place.rooted names).text) = true := by
  simp [isAbs,Text.hasPrefix,Paths.Place.text]

variable {names others : List (Paths.Name '/' '.')}

lemma join_of_isAbs (absolute : isAbs fs.root = true) (rooted : place fs.root = .rooted names) (path : String) :
    ∃ ups down, (Paths.Place.relative 0 []).walk (path.toList.splitOn '/') = (.relative ups down : Paths.Place '/' '.') ∧
      place (join fs.root path) = .rooted (names.take (names.length - ups) ++ down) := by
  obtain ⟨rest,whole⟩ := isPrefixOf_iff_prefix.mp absolute
  have full : fs.root.toList ≠ [] := by simp [← whole]
  obtain ⟨ups,down,here,walked⟩ := Paths.Place.walk_relative '/' '.' (path.toList.splitOn '/')
  refine ⟨ups,down,here,?_⟩
  rw [place,join,String.toList_ofList,Paths.read_join slash_ne_dot full,walked]
  rw [place] at rooted
  rw [rooted,Paths.Place.up_rooted]
  rfl

lemma join_eq_text (absolute : isAbs fs.root = true) (reached : place (join fs.root path) = .rooted others) :
    join fs.root path = String.ofList (Paths.Place.rooted others).text := by
  obtain ⟨rest,whole⟩ := isPrefixOf_iff_prefix.mp absolute
  have full : fs.root.toList ≠ [] := by simp [← whole]
  have cleaned : Paths.join '/' '.' fs.root.toList path.toList = Paths.clean '/' '.' (fs.root.toList ++ '/' :: path.toList) :=
    if_neg full
  rw [place,join,String.toList_ofList,cleaned,Paths.read_clean slash_ne_dot] at reached
  rw [join,cleaned,Paths.clean,reached]

lemma isAllowed_iff (absolute : isAbs fs.root = true)
    (rooted : place fs.root = .rooted names) (reached : place (join fs.root path) = .rooted others) :
    fs.isAllowed wd (join fs.root path) = true ↔
      names <+: others ∨ Paths.Outgrown (names.map (·.val)) (others.map (·.val)) := by
  have text := join_eq_text absolute reached
  have joined : abs wd (join fs.root path) = String.ofList (Paths.Place.rooted others).text := by
    rw [text,abs_of_isAbs (isAbs_rooted others),clean,String.toList_ofList,Paths.clean,Paths.read_text slash_ne_dot]
  have whole : abs wd fs.root = String.ofList (Paths.Place.rooted names).text := by
    rw [place] at rooted
    rw [abs_of_isAbs absolute,clean,Paths.clean,rooted]
  rw [FileSystem.isAllowed,joined,whole,Text.hasPrefix,String.toList_ofList,String.toList_ofList, isPrefixOf_iff_prefix]
  exact Paths.text_prefix_iff slash_ne_dot names others

/-- Under an absolute root a path is contained exactly if it does not climb out of the root
into a name that only begins with the root's own. -/
theorem contained_iff_not_climbsToLongerName (wd : Option String) (fs : FileSystem) (absolute : isAbs fs.root = true)
    (path : String) : fs.Contained wd path ↔ ¬ClimbsToLongerName fs.root path := by
  obtain ⟨names,rooted⟩ := place_of_isAbs absolute
  obtain ⟨ups,down,here,reached⟩ := join_of_isAbs absolute rooted path
  have within : Within fs.root (join fs.root path) ↔ names <+: names.take (names.length - ups) ++ down := by
    rw [place] at rooted reached
    rw [Within,Paths.Within,rooted,reached]
    constructor
    · rintro ⟨more,below⟩
      exact ⟨more,(Paths.Place.rooted.inj below).symm⟩
    · rintro ⟨more,below⟩
      exact ⟨more,congrArg Paths.Place.rooted below.symm⟩
  have climbs : ClimbsToLongerName fs.root path ↔
      Paths.Outgrown (names.map (·.val)) ((names.take (names.length - ups) ++ down).map (·.val)) := by
    have cut : names.map (·.val) =
        (names.take (names.length - ups)).map (·.val) ++ (names.drop (names.length - ups)).map (·.val) := by
      rw [← map_append,take_append_drop]
    rw [cut,map_append,Paths.outgrown_append_iff,ClimbsToLongerName,rooted,here]
  rw [contained_iff_allowed,isAllowed_iff absolute rooted reached,within,climbs]
  constructor
  · intro contained longer
    exact longer.not_first ((contained (.inr longer)).map _)
  · rintro shorter (inside | longer)
    · exact inside
    · exact absurd longer shorter

theorem contained_back_inside : FileSystem.Contained none ⟨"/srv/data"⟩ "../data/x" := by
  rw [contained_iff_not_climbsToLongerName none ⟨"/srv/data"⟩ (by decide)]
  intro longer
  have shape : Paths.Outgrown ["data".toList] ["data".toList,"x".toList] := longer
  obtain ⟨front,last,extension,rest,same,whole,more⟩ := shape
  rcases front with _ | ⟨first,front⟩ <;> simp_all

/-- A sibling of the root whose name begins with the root's is read. -/
theorem sibling_read : ¬FileSystem.Contained none ⟨"/srv/data"⟩ "../data-secret/x" := by
  intro contained
  have reached : FileSystem.read none ⟨"/srv/data"⟩ "../data-secret/x" = .ok (.readFile "/srv/data-secret/x") := by decide
  obtain ⟨more,below⟩ := contained _ (.inl reached)
  have second : ["srv".toList,"data-secret".toList] = ["srv".toList,"data".toList] :=
    congrArg (fun place => place.elements.take 2) below
  exact absurd second (by decide)

end FileSystem

end Tempest.Containment
