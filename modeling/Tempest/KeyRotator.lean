import Tempest.Engine

/-! The key rotator of `internal/keyrotator`. The rotator's map leads from a key id to the
record of the key, which is shared with the calls that have read it: records have addresses,
and a record is changed in place. AES-GCM is a parameter; what the calls draw at random is part
of the call. -/
namespace Tempest.KeyRotator
open Filing Interaction

abbrev Bytes := List UInt8

abbrev RawKey := Vector UInt8 32

abbrev Nonce := Vector UInt8 12

open List

/-- Authenticated encryption: what opens under a key, a nonce and additional data is what was
sealed under them. -/
structure Aead where
  gcmSeal : RawKey → Nonce → (aad plaintext : Bytes) → Bytes
  gcmOpen : RawKey → Nonce → (aad ciphertext : Bytes) → Option Bytes
  opens : ∀ key nonce aad ciphertext plaintext,
    gcmOpen key nonce aad ciphertext = some plaintext ↔ ciphertext = gcmSeal key nonce aad plaintext

inductive KeyState
  | active
  | retired
  | revoked
  deriving DecidableEq

inductive Err
  | errKeyNotFound
  | errKeyRevoked
  | errDecryptionFail
  | errNoActiveKey
  | envelopeNil
  | rand
  deriving DecidableEq

structure DataKey where
  id : String
  version : UInt32
  state : KeyState
  rawKey : RawKey
  usageCount : UInt64
  deriving DecidableEq

structure Envelope where
  version : UInt32
  keyID : String
  nonce : Nonce
  ciphertext : Bytes
  deriving DecidableEq

/-- The map has the addresses of records, each the record of its id. -/
structure Rotator where
  records : List DataKey
  keys : Table (Prod.fst : String × Nat → String)
  activeKeyID : String
  nextVersion : UInt32
  maxOperations : UInt64
  placed : ∀ row ∈ keys.rows,∃ dk,records[row.2]? = some dk ∧ dk.id = row.1

/-- The random bytes of a `Rotate`. -/
structure Draw where
  raw : RawKey
  idBytes : List (Fin 256)

def keyID (version : UInt32) (idBytes : List (Fin 256)) : String :=
  "key-v" ++ toString version.toNat ++ "-" ++ hexEncode idBytes

variable {r : Rotator} {id : String} {plaintext aad : Bytes} {nonce : Option Nonce} {env : Envelope} {asks : Bool}

namespace Rotator

def addressOf (r : Rotator) (id : String) : Option Nat := (r.keys.lookup id).map Prod.snd

def get (r : Rotator) (id : String) : Option DataKey := (r.addressOf id).bind (fun a => r.records[a]?)

variable {a : Nat}

lemma placed_at (found : r.addressOf id = some a) : ∃ dk,r.records[a]? = some dk ∧ dk.id = id := by
  obtain ⟨row,stored,rfl⟩ := Option.map_eq_some_iff.mp found
  obtain ⟨dk,read,named⟩ := r.placed row (r.keys.lookup_mem stored)
  exact ⟨dk,read,named.trans (r.keys.lookup_key stored)⟩

lemma get_id {dk : DataKey} (found : r.get id = some dk) : dk.id = id := by
  obtain ⟨a,address,read⟩ := Option.bind_eq_some_iff.mp found
  obtain ⟨dk',read',named⟩ := placed_at address
  rw [read] at read'
  cases read'
  exact named

def amend (r : Rotator) (a : Nat) (f : DataKey → DataKey) (keeps : ∀ dk,(f dk).id = dk.id) : Rotator :=
  { r with
    records := r.records.modify a f
    placed := by
      intro row member
      obtain ⟨dk,read,named⟩ := r.placed row member
      rw [List.getElem?_modify,read]
      by_cases here : a = row.2
      · exact ⟨f dk,by simp [here],(keeps dk).trans named⟩
      · exact ⟨dk,by simp [here],named⟩ }

lemma get_amend (address : r.addressOf id = some a) (f : DataKey → DataKey)
    (keeps : ∀ dk,(f dk).id = dk.id) (other : String) :
    (r.amend a f keeps).get other = if other = id then (r.get id).map f else r.get other := by
  have same : (r.amend a f keeps).addressOf other = r.addressOf other := rfl
  by_cases here : other = id
  · subst here
    rw [get,get,same,address]
    simp [amend]
  · rw [if_neg here,get,get,same]
    cases found : r.addressOf other with
    | none => rfl
    | some b =>
      -- the records at the two addresses have different ids
      have apart : a ≠ b := by
        rintro rfl
        obtain ⟨dk,read,named⟩ := placed_at address
        obtain ⟨dk',read',named'⟩ := placed_at found
        rw [read] at read'
        cases read'
        exact here (named'.symm.trans named)
      simp [amend,getElem?_modify,apart]

def retired (dk : DataKey) : DataKey := if dk.state = .active then { dk with state := .retired } else dk

variable (dk : DataKey)

lemma retired_id : (retired dk).id = dk.id := by
  rw [retired]
  split <;> rfl

def retire (r : Rotator) : Rotator :=
  if r.activeKeyID ≠ "" then
    match r.addressOf r.activeKeyID with
    | some a => r.amend a retired retired_id
    | none => r
  else r

def add (r : Rotator) (draw : Draw) : Rotator where
  records := r.records ++ [⟨keyID r.nextVersion draw.idBytes,r.nextVersion,.active,draw.raw,0⟩]
  keys := r.keys.insert (keyID r.nextVersion draw.idBytes,r.records.length)
  activeKeyID := keyID r.nextVersion draw.idBytes
  nextVersion := r.nextVersion + 1
  maxOperations := r.maxOperations
  placed := by
    intro row member
    obtain rfl | ⟨old,_⟩ := (r.keys.mem_insert _ _).mp member
    · exact ⟨_,List.getElem?_concat_length,rfl⟩
    · obtain ⟨dk,read,named⟩ := r.placed row old
      exact ⟨dk,List.getElem?_append_left (List.getElem?_eq_some_iff.mp read).1 ▸ read,named⟩

def rotate (r : Rotator) (draw : Option Draw) : Except Err Nat × Rotator :=
  match draw with
  | none => (.error .rand,r)
  | some draw => (.ok r.retire.records.length,r.retire.add draw)

def blank (maxOperations : UInt64) : Rotator := ⟨[],Table.empty,"",1,maxOperations,nofun⟩

def new (maxOperations : UInt64) (draw : Option Draw) : Except Err Rotator :=
  match rotate (blank maxOperations) draw with
  | (.error err,_) => .error err
  | (.ok _,r) => .ok r

variable (aead : Aead)

def sealUnder (dk : DataKey) (nonce : Nonce) (plaintext aad : Bytes) : Envelope :=
  ⟨dk.version,dk.id,nonce,aead.gcmSeal dk.rawKey nonce aad plaintext⟩

def count (dk : DataKey) : DataKey := { dk with usageCount := dk.usageCount + 1 }

lemma count_id : (count dk).id = dk.id := rfl

def encrypt (r : Rotator) (plaintext aad : Bytes) (nonce : Option Nonce) : Except Err (Envelope × Bool) × Rotator :=
  match r.addressOf r.activeKeyID with
  | none => (.error .errNoActiveKey,r)
  | some a =>
    match r.records[a]? with
    | none => (.error .errNoActiveKey,r)
    | some dk =>
      if dk.state ≠ .active then (.error .errNoActiveKey,r)
      else
        match nonce with
        | none => (.error .rand,r)
        | some nonce =>
          (.ok (sealUnder aead dk nonce plaintext aad,
            decide (0 < r.maxOperations) && decide (r.maxOperations ≤ dk.usageCount + 1)),
            r.amend a count count_id)

def decrypt (r : Rotator) (env : Option Envelope) (aad : Bytes) : Except Err Bytes :=
  match env with
  | none => .error .envelopeNil
  | some env =>
    match r.get env.keyID with
    | none => .error .errKeyNotFound
    | some dk =>
      if dk.state = .revoked then .error .errKeyRevoked
      else
        match aead.gcmOpen dk.rawKey env.nonce aad env.ciphertext with
        | none => .error .errDecryptionFail
        | some plaintext => .ok plaintext

def reEncrypt (r : Rotator) (env : Envelope) (aad : Bytes) (nonce : Option Nonce) : Except Err (Envelope × Bool) × Rotator :=
  if env.keyID = r.activeKeyID then (.ok (env,false),r)
  else
    match decrypt aead r (some env) aad with
    | .error err => (.error err,r)
    | .ok plaintext =>
      match encrypt aead r plaintext aad nonce with
      | (.error err,r) => (.error err,r)
      | (.ok (newEnv,_),r) => (.ok (newEnv,true),r)

def destroy (dk : DataKey) : DataKey := { dk with state := .revoked,rawKey := Vector.replicate 32 0 }

lemma destroy_id : (destroy dk).id = dk.id := rfl

def deactivate (r : Rotator) (id : String) : Rotator := if r.activeKeyID = id then { r with activeKeyID := "" } else r

def revokeKey (r : Rotator) (id : String) : Except Err Unit × Rotator :=
  match r.addressOf id with
  | none => (.error .errKeyNotFound,r)
  | some a => (.ok (),(r.amend a destroy destroy_id).deactivate id)

lemma get_deactivate (r : Rotator) (id other : String) : (r.deactivate id).get other = r.get other := by
  rw [deactivate]
  split <;> rfl

lemma get_eq (address : r.addressOf id = some a) : r.get id = r.records[a]? := by
  rw [get,address]
  rfl

lemma get_none (absent : r.addressOf id = none) : r.get id = none := by
  rw [get,absent]
  rfl

lemma get_retire (r : Rotator) (id : String) (nameless : r.get "" = none) :
    r.retire.get id = if id = r.activeKeyID then (r.get id).map retired else r.get id := by
  rw [retire]
  split_ifs with named here here
  · subst here
    cases address : r.addressOf r.activeKeyID with
    | none =>
      rw [get_none address]
      rfl
    | some a =>
      rw [get_amend address,if_pos rfl]
  · cases address : r.addressOf r.activeKeyID with
    | none => rfl
    | some a =>
      rw [get_amend address,if_neg here]
  · rw [here,not_not.mp named,nameless]
    rfl
  · rfl

lemma get_add (r : Rotator) (draw : Draw) (id : String) :
    (r.add draw).get id = if id = keyID r.nextVersion draw.idBytes then
      some ⟨keyID r.nextVersion draw.idBytes,r.nextVersion,.active,draw.raw,0⟩ else r.get id := by
  have address : (r.add draw).addressOf id =
      if id = keyID r.nextVersion draw.idBytes then some r.records.length else r.addressOf id := by
    rw [addressOf,add]
    rw [Table.lookup_insert]
    split_ifs <;> rfl
  rw [get,address]
  split_ifs with here
  · exact getElem?_concat_length
  · rw [get]
    cases found : r.addressOf id with
    | none => rfl
    | some a =>
      obtain ⟨dk,read,-⟩ := placed_at found
      exact List.getElem?_append_left (List.getElem?_eq_some_iff.mp read).1

variable {r' : Rotator}

lemma encrypt_cases (sealed : encrypt aead r plaintext aad nonce = (.ok (env,asks),r')) :
    ∃ dk fresh,r.get r.activeKeyID = some dk ∧ dk.state = .active ∧ env = sealUnder aead dk fresh plaintext aad ∧
      r'.activeKeyID = r.activeKeyID ∧
      ∀ id,r'.get id = if id = r.activeKeyID then (r.get r.activeKeyID).map count else r.get id := by
  rw [encrypt] at sealed
  cases address : r.addressOf r.activeKeyID with
  | none =>
    rw [address] at sealed
    cases sealed
  | some a =>
    rw [address] at sealed
    dsimp only at sealed
    cases read : r.records[a]? with
    | none =>
      rw [read] at sealed
      cases sealed
    | some dk =>
      rw [read] at sealed
      dsimp only at sealed
      split_ifs at sealed with inactive
      · cases sealed
      · cases nonce with
        | none => cases sealed
        | some nonce =>
          cases sealed
          exact ⟨dk,nonce,(get_eq address).trans read,not_not.mp inactive,rfl,rfl,fun id => get_amend address _ _ id⟩

lemma encrypt_failed {err : Err} (failed : encrypt aead r plaintext aad nonce = (.error err,r')) : r' = r := by
  rw [encrypt] at failed
  split at failed
  · cases failed
    rfl
  · split at failed
    · cases failed
      rfl
    · split_ifs at failed
      · cases failed
        rfl
      · split at failed
        · cases failed
          rfl
        · cases failed

lemma decrypt_ok_iff : decrypt aead r (some env) aad = .ok plaintext ↔
      ∃ dk,r.get env.keyID = some dk ∧ dk.state ≠ .revoked ∧
        env.ciphertext = aead.gcmSeal dk.rawKey env.nonce aad plaintext := by
  rw [decrypt]
  cases found : r.get env.keyID with
  | none => simp
  | some dk =>
    dsimp only
    split_ifs with revoked
    · simp [revoked]
    · have only : (∃ dk',some dk = some dk' ∧ dk'.state ≠ .revoked ∧
          env.ciphertext = aead.gcmSeal dk'.rawKey env.nonce aad plaintext) ↔
          aead.gcmOpen dk.rawKey env.nonce aad env.ciphertext = some plaintext := by
        simp [revoked,aead.opens]
      rw [only]
      cases aead.gcmOpen dk.rawKey env.nonce aad env.ciphertext <;> simp

lemma decrypt_encrypt (sealed : encrypt aead r plaintext aad nonce = (.ok (env,asks),r')) :
    decrypt aead r' (some env) aad = .ok plaintext := by
  obtain ⟨dk,nonce,found,active,rfl,-,after⟩ := encrypt_cases aead sealed
  have named : (sealUnder aead dk nonce plaintext aad).keyID = r.activeKeyID := get_id found
  refine (decrypt_ok_iff aead).mpr ⟨count dk,?_,?_,rfl⟩
  · rw [after,if_pos named,found]
    rfl
  · rw [count,active]
    decide

lemma decrypt_reEncrypt {env' : Envelope} {moved : Bool}
    (done : reEncrypt aead r env aad nonce = (.ok (env',moved),r')) :
    decrypt aead r' (some env') aad = decrypt aead r (some env) aad := by
  rw [reEncrypt] at done
  split_ifs at done
  · cases done
    rfl
  · cases opened : decrypt aead r (some env) aad with
    | error err =>
      rw [opened] at done
      cases done
    | ok plaintext =>
      rw [opened] at done
      dsimp only at done
      split at done
      · cases done
      next asks r'' sealed =>
        cases done
        exact decrypt_encrypt aead sealed

end Rotator

/-- An envelope, and what it was made from. -/
structure Issued where
  env : Envelope
  plaintext : Bytes
  aad : Bytes

/-- The rotator, the envelopes issued so far and the ids of the keys revoked so far. -/
structure World where
  rotator : Rotator
  issued : List Issued
  revoked : List String

/-- The calls. The `Rotate` of a goroutine that `Encrypt` has started is one of them. -/
inductive Choice
  | rotate (draw : Option Draw)
  | encrypt (plaintext aad : Bytes) (nonce : Option Nonce)
  | decrypt (env : Option Envelope) (aad : Bytes)
  | reEncrypt (env : Envelope) (aad : Bytes) (nonce : Option Nonce)
  | revokeKey (id : String)

namespace World
open Rotator

def init (r : Rotator) : World := ⟨r,[],[]⟩

variable (aead : Aead)

def step (w : World) : Choice → World
  | .rotate draw => { w with rotator := (w.rotator.rotate draw).2 }
  | .encrypt plaintext aad nonce =>
    match w.rotator.encrypt aead plaintext aad nonce with
    | (.ok (env,_),r) => { w with rotator := r,issued := ⟨env,plaintext,aad⟩ :: w.issued }
    | (.error _,r) => { w with rotator := r }
  | .decrypt _ _ => w
  | .reEncrypt env aad nonce =>
    match w.rotator.reEncrypt aead env aad nonce,w.rotator.decrypt aead (some env) aad with
    | (.ok (newEnv,true),r),.ok plaintext => { w with rotator := r,issued := ⟨newEnv,plaintext,aad⟩ :: w.issued }
    | (_,r),_ => { w with rotator := r }
  | .revokeKey id =>
    match w.rotator.revokeKey id with
    | (.ok _,r) => { w with rotator := r,revoked := id :: w.revoked }
    | (.error _,r) => { w with rotator := r }

/-- The only active key is the one that `activeKeyID` names; every envelope opens to its
plaintext until its key is revoked; no envelope of a revoked key opens; and what `ReEncrypt`
returns opens to what its argument opens to. -/
def Kept (w : World) : Prop :=
  (∀ id dk,w.rotator.get id = some dk → dk.state = .active → id = w.rotator.activeKeyID) ∧
    (∀ i ∈ w.issued,i.env.keyID ∉ w.revoked → w.rotator.decrypt aead (some i.env) i.aad = .ok i.plaintext) ∧
    (∀ env aad plaintext,env.keyID ∈ w.revoked → w.rotator.decrypt aead (some env) aad ≠ .ok plaintext) ∧
    ∀ env aad nonce env' moved r',w.rotator.reEncrypt aead env aad nonce = (.ok (env',moved),r') →
      r'.decrypt aead (some env') aad = w.rotator.decrypt aead (some env) aad

def Fresh (w : World) : Choice → Prop
  | .rotate (some draw) => w.rotator.get (keyID w.rotator.nextVersion draw.idBytes) = none
  | _ => True

instance (w : World) (choice : Choice) : Decidable (Fresh w choice) := by
  unfold Fresh
  split <;> infer_instance

/-- Of each key: only the named one is active, exactly those that were revoked are in the state
revoked, and the envelopes of the others are sealed under their keys. -/
structure Inv (w : World) : Prop where
  nameless : w.rotator.get "" = none
  active : ∀ id dk,w.rotator.get id = some dk → dk.state = .active → id = w.rotator.activeKeyID
  gone : ∀ id ∈ w.revoked,∃ dk,w.rotator.get id = some dk ∧ dk.state = .revoked
  alive : ∀ id dk,w.rotator.get id = some dk → dk.state = .revoked → id ∈ w.revoked
  sealing : ∀ i ∈ w.issued,∃ dk,w.rotator.get i.env.keyID = some dk ∧
    (dk.state ≠ .revoked → i.env.ciphertext = aead.gcmSeal dk.rawKey i.env.nonce i.aad i.plaintext)

variable {aead : Aead} {w : World}

lemma Inv.kept (inv : Inv aead w) : Kept aead w := by
  refine ⟨inv.active,fun i member alive => ?_,fun env aad plaintext member opened => ?_,
    fun env aad nonce env' moved r' done => decrypt_reEncrypt aead done⟩
  · obtain ⟨dk,found,sealing⟩ := inv.sealing i member
    have unrevoked := fun revoked => alive (inv.alive _ dk found revoked)
    exact (decrypt_ok_iff aead).mpr ⟨dk,found,unrevoked,sealing unrevoked⟩
  · obtain ⟨dk,found,unrevoked,-⟩ := (decrypt_ok_iff aead).mp opened
    obtain ⟨dk',found',revoked⟩ := inv.gone _ member
    rw [found] at found'
    cases found'
    exact unrevoked revoked

lemma Inv.change {f : String → DataKey → DataKey} (inv : Inv aead w)
    (after : ∀ id,r.get id = (w.rotator.get id).map (f id)) (raw : ∀ id dk,(f id dk).rawKey = dk.rawKey)
    (revoked : ∀ id dk,(f id dk).state = .revoked ↔ dk.state = .revoked)
    (active : ∀ id dk,w.rotator.get id = some dk → (f id dk).state = .active → id = r.activeKeyID) :
    Inv aead { w with rotator := r } := by
  refine ⟨?_,?_,?_,?_,?_⟩
  · dsimp only
    rw [after,inv.nameless]
    rfl
  · intro id dk found isActive
    rw [after] at found
    obtain ⟨before,earlier,rfl⟩ := Option.map_eq_some_iff.mp found
    exact active id before earlier isActive
  · intro id member
    obtain ⟨dk,found,isRevoked⟩ := inv.gone id member
    refine ⟨f id dk,?_,(revoked id dk).mpr isRevoked⟩
    rw [after,found]
    rfl
  · intro id dk found isRevoked
    rw [after] at found
    obtain ⟨before,earlier,rfl⟩ := Option.map_eq_some_iff.mp found
    exact inv.alive id before earlier ((revoked id before).mp isRevoked)
  · intro i member
    obtain ⟨dk,found,sealing⟩ := inv.sealing i member
    refine ⟨f i.env.keyID dk,?_,fun alive => ?_⟩
    · dsimp only
      rw [after,found]
      rfl
    · rw [raw]
      exact sealing (fun isRevoked => alive ((revoked _ dk).mpr isRevoked))

lemma Inv.retire (inv : Inv aead w) : Inv aead { w with rotator := w.rotator.retire } ∧
    ∀ id dk,w.rotator.retire.get id = some dk → dk.state ≠ .active := by
  have after id : w.rotator.retire.get id =
      (w.rotator.get id).map (fun dk => if id = w.rotator.activeKeyID then retired dk else dk) := by
    rw [get_retire _ _ inv.nameless]
    split_ifs
    · rfl
    · exact Option.map_id'.symm
  have none_ id dk (found : w.rotator.get id = some dk) :
      (if id = w.rotator.activeKeyID then retired dk else dk).state ≠ .active := by
    split_ifs with here
    · rw [retired]
      split_ifs with isActive
      · nofun
      · exact isActive
    · exact fun isActive => here (inv.active id dk found isActive)
  refine ⟨inv.change after ?_ ?_ (fun id dk found isActive => absurd isActive (none_ id dk found)),?_⟩
  · intro id dk
    rw [retired]
    split_ifs <;> rfl
  · intro id dk
    rw [retired]
    split_ifs with here isActive
    · simp [isActive]
    all_goals rfl
  · intro id dk found
    rw [after] at found
    obtain ⟨before,earlier,rfl⟩ := Option.map_eq_some_iff.mp found
    exact none_ id before earlier

lemma keyID_ne (version : UInt32) (idBytes : List (Fin 256)) : keyID version idBytes ≠ "" := by
  simp [keyID]

lemma Inv.add (inv : Inv aead w) (none_ : ∀ id dk,w.rotator.get id = some dk → dk.state ≠ .active) {draw : Draw}
    (fresh : w.rotator.get (keyID w.rotator.nextVersion draw.idBytes) = none) :
    Inv aead { w with rotator := w.rotator.add draw } := by
  have other {id : String} {dk : DataKey} (found : w.rotator.get id = some dk) : (w.rotator.add draw).get id = some dk := by
    rw [get_add,if_neg,found]
    rintro rfl
    rw [fresh] at found
    cases found
  have cases_ {id : String} {dk : DataKey} (found : (w.rotator.add draw).get id = some dk) :
      (id = (w.rotator.add draw).activeKeyID ∧ dk.state = .active) ∨ w.rotator.get id = some dk := by
    rw [get_add] at found
    split_ifs at found with here
    · cases found
      exact .inl ⟨here,rfl⟩
    · exact .inr found
  refine ⟨?_,?_,?_,?_,?_⟩
  · dsimp only
    rw [get_add,if_neg (keyID_ne _ _).symm,inv.nameless]
  · intro id dk found isActive
    obtain ⟨here,-⟩ | before := cases_ found
    · exact here
    · exact absurd isActive (none_ id dk before)
  · intro id member
    obtain ⟨dk,found,isRevoked⟩ := inv.gone id member
    exact ⟨dk,other found,isRevoked⟩
  · intro id dk found isRevoked
    obtain ⟨-,isActive⟩ | before := cases_ found
    · rw [isActive] at isRevoked
      cases isRevoked
    · exact inv.alive id dk before isRevoked
  · intro i member
    obtain ⟨dk,found,sealing⟩ := inv.sealing i member
    exact ⟨dk,other found,sealing⟩

lemma retire_nextVersion (r : Rotator) : r.retire.nextVersion = r.nextVersion := by
  rw [Rotator.retire]
  split_ifs
  · split <;> rfl
  · rfl

variable {draw : Option Draw}

lemma rotate_inv (inv : Inv aead w) (fresh : Fresh w (.rotate draw)) :
    Inv aead { w with rotator := (w.rotator.rotate draw).2 } := by
  cases draw with
  | none => exact inv
  | some draw =>
    obtain ⟨retiring,none_⟩ := inv.retire
    have absent := fresh
    refine retiring.add none_ ?_
    rw [retire_nextVersion,get_retire _ _ inv.nameless,absent]
    split_ifs <;> rfl

lemma init_inv {maxOperations : UInt64} (made : Rotator.new maxOperations draw = .ok r) : Inv aead (init r) := by
  have start : Inv aead (init (Rotator.blank maxOperations)) := ⟨rfl,nofun,nofun,nofun,nofun⟩
  cases draw with
  | none => cases made
  | some draw =>
    cases made
    have fresh : Fresh (init (Rotator.blank maxOperations)) (.rotate (some draw)) := rfl
    exact rotate_inv start fresh

lemma Inv.issue (inv : Inv aead w) {i : Issued} (opens : w.rotator.decrypt aead (some i.env) i.aad = .ok i.plaintext) :
    Inv aead { w with issued := i :: w.issued } := by
  refine ⟨inv.nameless,inv.active,inv.gone,inv.alive,fun j member => ?_⟩
  obtain rfl | old := mem_cons.mp member
  · obtain ⟨dk,found,-,sealing⟩ := (decrypt_ok_iff aead).mp opens
    exact ⟨dk,found,fun _ => sealing⟩
  · exact inv.sealing j old

lemma encrypt_inv (inv : Inv aead w) (sealed : w.rotator.encrypt aead plaintext aad nonce = (.ok (env,asks),r)) :
    Inv aead { w with rotator := r,issued := ⟨env,plaintext,aad⟩ :: w.issued } := by
  obtain ⟨dk,-,found,isActive,-,named,after⟩ := encrypt_cases aead sealed
  have counted : Inv aead { w with rotator := r } := by
    refine inv.change (f := fun id dk => if id = w.rotator.activeKeyID then count dk else dk) (fun id => ?_) ?_ ?_ ?_
    · rw [after]
      split_ifs with here
      · rw [here]
      · exact Option.map_id'.symm
    · intro id dk
      split_ifs <;> rfl
    · intro id dk
      split_ifs <;> rfl
    · intro id dk found isActive
      rw [named]
      refine inv.active id dk found ?_
      split_ifs at isActive with here
      all_goals exact isActive
  exact counted.issue (decrypt_encrypt aead sealed)

lemma revokeKey_inv (inv : Inv aead w) (done : w.rotator.revokeKey id = (.ok (),r)) :
    Inv aead { w with rotator := r,revoked := id :: w.revoked } := by
  rw [revokeKey] at done
  cases address : w.rotator.addressOf id with
  | none =>
    rw [address] at done
    cases done
  | some a =>
    rw [address] at done
    cases done
    obtain ⟨dk,read,named⟩ := placed_at address
    have found := (get_eq address).trans read
    have after other : ((w.rotator.amend a destroy destroy_id).deactivate id).get other =
        if other = id then some (destroy dk) else w.rotator.get other := by
      rw [get_deactivate,get_amend address,found]
      rfl
    refine ⟨?_,?_,?_,?_,?_⟩
    · dsimp only
      rw [after,if_neg,inv.nameless]
      rintro rfl
      rw [inv.nameless] at found
      cases found
    · intro other dk' found' isActive
      rw [after] at found'
      split_ifs at found' with here
      · cases found'
        cases isActive
      · have only := inv.active other dk' found' isActive
        have kept : (w.rotator.amend a destroy destroy_id).activeKeyID ≠ id := fun same => here (only.trans same)
        rw [deactivate,if_neg kept]
        exact only
    · intro other member
      rw [after]
      split_ifs with here
      · exact ⟨destroy dk,rfl,rfl⟩
      · exact inv.gone other ((mem_cons.mp member).resolve_left here)
    · intro other dk' found' isRevoked
      rw [after] at found'
      split_ifs at found' with here
      · rw [here]
        exact mem_cons_self
      · exact mem_cons_of_mem id (inv.alive other dk' found' isRevoked)
    · intro i member
      rw [after]
      split_ifs with here
      · exact ⟨destroy dk,rfl,fun alive => absurd rfl alive⟩
      · exact inv.sealing i member

lemma step_inv (inv : Inv aead w) {choice : Choice} (fresh : Fresh w choice) : Inv aead (w.step aead choice) := by
  cases choice with
  | rotate draw => exact rotate_inv inv fresh
  | encrypt plaintext aad nonce =>
    rw [step]
    split
    next env asks r sealed => exact encrypt_inv inv sealed
    next err r failed =>
      rw [encrypt_failed aead failed]
      exact inv
  | decrypt env aad => exact inv
  | reEncrypt env aad nonce =>
    rw [step,reEncrypt]
    split_ifs with current
    · exact inv
    · cases opened : w.rotator.decrypt aead (some env) aad with
      | error err => exact inv
      | ok plaintext =>
        dsimp only
        cases sealed : w.rotator.encrypt aead plaintext aad nonce with
        | mk result r =>
          cases result with
          | error err =>
            rw [encrypt_failed aead sealed]
            exact inv
          | ok made => exact encrypt_inv inv sealed
  | revokeKey id =>
    rw [step]
    split
    next done_ r done => exact revokeKey_inv inv done
    next err r failed =>
      rw [revokeKey] at failed
      split at failed
      · cases failed
        exact inv
      · cases failed

/-- The life of the keys of a rotator, in every state of every sequence of calls in which the
ids of the keys are distinct. -/
theorem kept_throughout (aead : Aead) {maxOperations : UInt64} {draw : Option Draw} {r : Rotator}
    (made : Rotator.new maxOperations draw = .ok r) (choices : List Choice)
    (distinct : Along (step aead) Fresh (init r) choices) : Throughout (step aead) (Kept aead) (init r) choices := by
  have kept : Throughout (step aead) (Inv aead) (init r) choices :=
    Along.throughout (fun _ _ inv fresh => step_inv inv fresh) (init_inv made) distinct
  exact kept.mono (fun _ inv => inv.kept)

def plainAead : Aead where
  gcmSeal key nonce aad plaintext := key.toList ++ nonce.toList ++ aad ++ plaintext
  gcmOpen key nonce aad ciphertext :=
    if key.toList ++ nonce.toList ++ aad <+: ciphertext then
      some (ciphertext.drop (key.toList ++ nonce.toList ++ aad).length) else none
  opens key nonce aad ciphertext plaintext := by
    split_ifs with start
    · obtain ⟨rest,rfl⟩ := start
      rw [List.drop_left,Option.some_inj,List.append_right_inj]
    · refine iff_of_false nofun ?_
      rintro rfl
      exact start (List.prefix_append _ _)

def firstKey : DataKey := ⟨keyID 1 [Fin.last 255],1,.active,Vector.replicate 32 7,0⟩

/-- An envelope is moved to the next key, and the first key is revoked. -/
theorem moved_and_revoked :
    ∃ r,Rotator.new 0 (some ⟨firstKey.rawKey,[Fin.last 255]⟩) = .ok r ∧
      Throughout (step plainAead) (Kept plainAead) (init r)
        [.encrypt [1,2] [] (some (Vector.replicate 12 0)),.rotate (some ⟨Vector.replicate 32 8,[2]⟩),
          .reEncrypt (sealUnder plainAead firstKey (Vector.replicate 12 0) [1,2] []) [] (some (Vector.replicate 12 1)),
          .revokeKey firstKey.id] := by
  refine ⟨_,rfl,?_⟩
  exact kept_throughout plainAead (show Rotator.new 0 (some ⟨firstKey.rawKey,[Fin.last 255]⟩) = .ok _ from rfl) _ (by decide +kernel)

end World

end Tempest.KeyRotator
