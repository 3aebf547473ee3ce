import Tempest.Lib.ByteText
import Mathlib.Algebra.Ring.Int.Defs
import Mathlib.Algebra.Ring.Nat
import Mathlib.Data.Int.DivMod
import Mathlib.Data.List.Forall2

/-! The audit ledger of `internal/ledger`. Texts are byte strings, as in the source. A time is
an instant and a location; the text that is hashed has the instant only, as nanoseconds in 64
bits. SHA-256 is a parameter, taken as injective where that matters: its digests are then of
any length. -/
namespace Tempest.Ledger
open ByteText List

abbrev Bytes := List UInt8

structure Time (Z : Type) where
  nanos : Int
  zone : Z
  deriving DecidableEq

def Time.unixNano {Z : Type} (t : Time Z) : Int := t.nanos.bmod (2 ^ 64)

structure Record (Z : Type) where
  index : UInt64
  timestamp : Time Z
  ns : Bytes
  actor : Bytes
  action : Bytes
  resource : Bytes
  payloadHash : Bytes
  prevHash : Bytes
  blockHash : Bytes
  deriving DecidableEq

inductive VerifyErr
  | errEmptyChain
  | errBrokenChain (index : UInt64) (prevHash : Bytes) (prevIndex : UInt64) (blockHash : Bytes)
  | errTamperedBlock (index : UInt64) (blockHash computed : Bytes)
  deriving DecidableEq

variable {Z : Type} (sha256 : Bytes → Bytes)

def fields (index : UInt64) (ts : Time Z) (ns actor action resource payloadHash : Bytes) : List Bytes :=
  [signed index.toNat,signed ts.unixNano,ns,actor,action,resource,payloadHash]

def computeHash (index : UInt64) (ts : Time Z) (ns actor action resource payloadHash prevHash : Bytes) : Bytes :=
  hex (sha256 (joined 58 (fields index ts ns actor action resource payloadHash) prevHash))

def hashPayload (payload : Bytes) : Bytes := hex (sha256 payload)

def Record.computed (r : Record Z) : Bytes :=
  computeHash sha256 r.index r.timestamp r.ns r.actor r.action r.resource r.payloadHash r.prevHash

def genesisHash : Bytes := List.replicate 64 48

def system : Bytes := [115,121,115,116,101,109]

def genesis : Bytes := [71,69,78,69,83,73,83]

def root : Bytes := [114,111,111,116]

def newLedger (utc : Z) : List (Record Z) :=
  [⟨0,⟨0,utc⟩,system,system,genesis,root,genesisHash,genesisHash,
    computeHash sha256 0 ⟨0,utc⟩ system system genesis root genesisHash genesisHash⟩]

def entry (last : Record Z) (now : Time Z) (ns actor action resource payload : Bytes) : Record Z :=
  ⟨last.index + 1,now,ns,actor,action,resource,hashPayload sha256 payload,last.blockHash,
    computeHash sha256 (last.index + 1) now ns actor action resource (hashPayload sha256 payload) last.blockHash⟩

def append (records : List (Record Z)) (nonempty : records ≠ []) (now : Time Z)
    (ns actor action resource payload : Bytes) : List (Record Z) :=
  records ++ [entry sha256 (records.getLast nonempty) now ns actor action resource payload]

def verifyFrom (prev : Record Z) : List (Record Z) → Except VerifyErr Unit
  | [] => .ok ()
  | curr :: rest =>
    if curr.prevHash ≠ prev.blockHash then
      .error (.errBrokenChain curr.index curr.prevHash prev.index prev.blockHash)
    else if curr.blockHash ≠ curr.computed sha256 then
      .error (.errTamperedBlock curr.index curr.blockHash (curr.computed sha256))
    else verifyFrom curr rest

def verify : List (Record Z) → Except VerifyErr Unit
  | [] => .error .errEmptyChain
  | first :: rest => verifyFrom sha256 first rest

def headHash (records : List (Record Z)) : Option Bytes := records.getLast?.map Record.blockHash

/-- Two entries agree in what their hashes do not show: the location, the multiple of 2⁶⁴ that
the nanoseconds lose, and where the separators of the text stand. -/
structure SameShape (r s : Record Z) : Prop where
  zone : r.timestamp.zone = s.timestamp.zone
  window : r.timestamp.nanos.bdiv (2 ^ 64) = s.timestamp.nanos.bdiv (2 ^ 64)
  ns : r.ns.count 58 = s.ns.count 58
  actor : r.actor.count 58 = s.actor.count 58
  action : r.action.count 58 = s.action.count 58
  resource : r.resource.count 58 = s.resource.count 58
  payloadHash : r.payloadHash.count 58 = s.payloadHash.count 58

/-- The first entries agree in all fields but the hash, which nothing checks, and the others in
what their hashes do not show. -/
def Covered : List (Record Z) → List (Record Z) → Prop
  | a :: as,b :: bs => { a with blockHash := [] } = { b with blockHash := [] } ∧ List.Forall₂ SameShape as bs
  | _,_ => True

variable {sha256}

variable {prev : Record Z} {records : List (Record Z)}

lemma verifyFrom_cons {curr : Record Z} {rest : List (Record Z)} :
    verifyFrom sha256 prev (curr :: rest) = .ok () ↔
      curr.prevHash = prev.blockHash ∧ curr.blockHash = curr.computed sha256 ∧ verifyFrom sha256 curr rest = .ok () := by
  rw [verifyFrom]
  split_ifs with broken tampered
  · exact iff_of_false nofun (fun fine => broken fine.1)
  · exact iff_of_false nofun (fun fine => tampered fine.2.1)
  · exact ⟨fun fine => ⟨not_not.mp broken,not_not.mp tampered,fine⟩,fun fine => fine.2.2⟩

lemma verifyFrom_append (fine : verifyFrom sha256 prev records = .ok ())
    {new : Record Z} (links : new.prevHash = ((prev :: records).getLast (cons_ne_nil _ _)).blockHash)
    (hashed : new.blockHash = new.computed sha256) : verifyFrom sha256 prev (records ++ [new]) = .ok () := by
  induction records generalizing prev with
  | nil => exact verifyFrom_cons.mpr ⟨links,hashed,rfl⟩
  | cons curr rest ih =>
    obtain ⟨linked,computed,rest'⟩ := verifyFrom_cons.mp fine
    exact verifyFrom_cons.mpr ⟨linked,computed,ih rest' links⟩

lemma verify_append (fine : verify sha256 records = .ok ()) (nonempty : records ≠ [])
    (now : Time Z) (ns actor action resource payload : Bytes) :
    verify sha256 (append sha256 records nonempty now ns actor action resource payload) = .ok () := by
  cases records with
  | nil => exact absurd rfl nonempty
  | cons first rest => exact verifyFrom_append fine rfl rfl

lemma time_eq {s t : Time Z} (nano : s.unixNano = t.unixNano) (zone : s.zone = t.zone)
    (window : s.nanos.bdiv (2 ^ 64) = t.nanos.bdiv (2 ^ 64)) : s = t := by
  have nanos : s.nanos = t.nanos := by
    rw [← Int.bmod_add_bdiv s.nanos (2 ^ 64),← Int.bmod_add_bdiv t.nanos (2 ^ 64),window]
    exact congrArg (· + _) nano
  cases s
  cases t
  dsimp only at nanos zone
  rw [nanos,zone]

lemma fields_eq (injective : Function.Injective sha256) {r s : Record Z} (shape : SameShape r s)
    (same : r.computed sha256 = s.computed sha256) (hashes : r.blockHash = s.blockHash) : r = s := by
  have texts := injective (hex_injective same)
  have number (x y) : (signed x).count 58 = (signed y).count 58 := by
    rw [count_eq_zero_of_not_mem (colon_signed x),count_eq_zero_of_not_mem (colon_signed y)]
  obtain ⟨parts,prevHash⟩ := joined_injective (.cons (number _ _) (.cons (number _ _) (.cons shape.ns (.cons shape.actor
    (.cons shape.action (.cons shape.resource (.cons shape.payloadHash .nil))))))) texts
  simp only [List.cons.injEq,and_true] at parts
  obtain ⟨index,nano,ns,actor,action,resource,payloadHash⟩ := parts
  have index' := UInt64.toNat_inj.mp (Int.ofNat_inj.mp (signed_injective index))
  have time := time_eq (signed_injective nano) shape.zone shape.window
  cases r
  cases s
  simp_all

lemma verifyFrom_eq (injective : Function.Injective sha256) {a b : Record Z} {as bs : List (Record Z)}
    (left : verifyFrom sha256 a as = .ok ()) (right : verifyFrom sha256 b bs = .ok ())
    (shapes : List.Forall₂ SameShape as bs) (head : headHash (a :: as) = headHash (b :: bs)) :
    as = bs ∧ a.blockHash = b.blockHash := by
  induction shapes generalizing a b with
  | nil => exact ⟨rfl,Option.some_inj.mp head⟩
  | @cons r s rs ss shape shapes ih =>
    obtain ⟨linkedLeft,hashedLeft,restLeft⟩ := verifyFrom_cons.mp left
    obtain ⟨linkedRight,hashedRight,restRight⟩ := verifyFrom_cons.mp right
    have head' : headHash (r :: rs) = headHash (s :: ss) := by
      rw [headHash,getLast?_cons_cons] at head
      exact head
    obtain ⟨rest,hashes⟩ := ih restLeft restRight head'
    have computed : r.computed sha256 = s.computed sha256 := by rw [← hashedLeft,← hashedRight,hashes]
    have entries := fields_eq injective shape computed hashes
    refine ⟨by rw [entries,rest],?_⟩
    rw [← linkedLeft,← linkedRight,entries]

/-- Two chains of one length that pass `Verify` and have the same head hash are identical,
exactly if their first entries agree apart from their hashes, and the others in the
location and the range of their times and in the number of colons of each text. -/
theorem identical_iff_covered (injective : Function.Injective sha256) {chain other : List (Record Z)}
    (long : chain.length = other.length) (left : verify sha256 chain = .ok ()) (right : verify sha256 other = .ok ())
    (head : headHash chain = headHash other) : chain = other ↔ Covered chain other := by
  constructor
  · rintro rfl
    cases chain with
    | nil => trivial
    | cons a as => exact ⟨rfl,forall₂_same.mpr (fun r _ => ⟨rfl,rfl,rfl,rfl,rfl,rfl,rfl⟩)⟩
  · intro covered
    cases chain with
    | nil => cases left
    | cons a as =>
      cases other with
      | nil => cases right
      | cons b bs =>
        obtain ⟨first,shapes⟩ := covered
        obtain ⟨rest,hash⟩ := verifyFrom_eq injective left right shapes head
        have entries : a = b := by
          cases a
          cases b
          simp_all
        rw [entries,rest]

/-- A colon moved from the namespace to the actor is not covered. -/
theorem moved_colon_not_covered :
    ¬Covered (append id (newLedger id ()) (List.cons_ne_nil _ _) ⟨1,()⟩ [97,58,98] [99] [99] [100] [])
      (append id (newLedger id ()) (List.cons_ne_nil _ _) ⟨1,()⟩ [97] [98,58,99] [99] [100] []) := by
  refine mt (identical_iff_covered Function.injective_id ?_ ?_ ?_ ?_).mpr ?_
  · rfl
  · exact verify_append rfl _ _ _ _ _ _ _
  · exact verify_append rfl _ _ _ _ _ _ _
  all_goals decide +kernel

/-- A colon moved from the namespace to the actor, and a first entry with another actor, each in
a chain that passes `Verify` with the same head hash. -/
theorem tampered_unseen :
    (let chain := append id (newLedger id ()) (List.cons_ne_nil _ _) ⟨1,()⟩ [97,58,98] [99] [99] [100] []
      let other := append id (newLedger id ()) (List.cons_ne_nil _ _) ⟨1,()⟩ [97] [98,58,99] [99] [100] []
      chain.length = other.length ∧ verify id chain = .ok () ∧ verify id other = .ok () ∧
        headHash chain = headHash other ∧ chain ≠ other) ∧
    ∃ first : Record Unit,
      verify id (newLedger id ()) = .ok () ∧ verify id [first] = .ok () ∧
        headHash (newLedger id ()) = headHash [first] ∧ newLedger id () ≠ [first] := by
  refine ⟨⟨rfl,?_,?_,?_,?_⟩,⟨0,⟨0,()⟩,system,[],genesis,root,genesisHash,genesisHash,
    computeHash id 0 ⟨0,()⟩ system system genesis root genesisHash genesisHash⟩,rfl,rfl,rfl,?_⟩
  · exact verify_append rfl _ _ _ _ _ _ _
  · exact verify_append rfl _ _ _ _ _ _ _
  all_goals decide +kernel

end Tempest.Ledger
