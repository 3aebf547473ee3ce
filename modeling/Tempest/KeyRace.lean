import Tempest.KeyRotator

/-! `Encrypt` among calls of `RevokeKey` and `Rotate`. `Encrypt` leaves the lock with a pointer
to the record of the active key and reads the record twice without the lock: its state, and
then the key bytes. Each of the three is a step here, and each call of the others is one. -/
open List
namespace Tempest.KeyRotator.Race
open Interaction Rotator Function

/-- The result of an `Encrypt`: the envelope, the address of the key and the bytes that were
read there. -/
structure Made where
  env : Envelope
  address : Nat
  key : RawKey
  deriving DecidableEq

inductive Call
  | fresh
  | found (address : Nat) (plaintext aad : Bytes)
  | checked (address : Nat) (plaintext aad : Bytes)
  | returned (result : Except Err Made)

/-- `generated` has, for each address, the bytes that `Rotate` drew for the record. -/
structure World (C : Type) where
  rotator : Rotator
  generated : List RawKey
  call : C → Call

inductive Choice (C : Type)
  | look (c : C) (plaintext aad : Bytes)
  | check (c : C)
  | finish (c : C) (nonce : Option Nonce)
  | rotate (draw : Option Draw)
  | revokeKey (id : String)

namespace World

variable {C : Type} [DecidableEq C]

def init (maxOperations : UInt64) (draw : Draw) : World C :=
  ⟨(retire (blank maxOperations)).add draw,[draw.raw],fun _ => .fresh⟩

def put (w : World C) (c : C) (call : Call) : World C := { w with call := Function.update w.call c call }

variable (aead : Aead)

def check (w : World C) (c : C) : World C :=
  match w.call c with
  | .found a plaintext aad =>
    match w.rotator.records[a]? with
    | none => w
    | some dk =>
      if dk.state ≠ .active then w.put c (.returned (.error .errNoActiveKey)) else w.put c (.checked a plaintext aad)
  | _ => w

def finish (w : World C) (c : C) (nonce : Option Nonce) : World C :=
  match w.call c with
  | .checked a plaintext aad =>
    match w.rotator.records[a]?,nonce with
    | none,_ => w
    | some _,none => w.put c (.returned (.error .rand))
    | some dk,some nonce =>
      { w with rotator := w.rotator.amend a count count_id }.put c
        (.returned (.ok ⟨sealUnder aead dk nonce plaintext aad,a,dk.rawKey⟩))
  | _ => w

def step (w : World C) : Choice C → World C
  | .look c plaintext aad =>
    match w.call c with
    | .fresh =>
      match w.rotator.addressOf w.rotator.activeKeyID with
      | none => w.put c (.returned (.error .errNoActiveKey))
      | some a => w.put c (.found a plaintext aad)
    | _ => w
  | .check c => w.check c
  | .finish c nonce => w.finish aead c nonce
  | .rotate draw =>
    { w with
      rotator := (w.rotator.rotate draw).2
      generated := w.generated ++ (draw.map Draw.raw).toList }
  | .revokeKey id => { w with rotator := (w.rotator.revokeKey id).2 }

def Sealed (w : World C) : Prop :=
  ∀ c made,w.call c = .returned (.ok made) → w.generated[made.address]? = some made.key

/-- When the key bytes are read, the key has not been revoked since the state was checked (or
its bytes were all zero from the start). -/
def Clean (w : World C) : Choice C → Prop
  | .finish c (some _) => ∀ a plaintext aad dk,w.call c = .checked a plaintext aad → w.rotator.records[a]? = some dk →
      dk.state = .revoked → w.generated[a]? = some (Vector.replicate 32 0)
  | _ => True

def Genuine (dk : DataKey) (raw : RawKey) : Prop :=
  dk.rawKey = if dk.state = .revoked then Vector.replicate 32 0 else raw

structure Inv (w : World C) : Prop where
  drawn : List.Forall₂ Genuine w.rotator.records w.generated
  sealed : Sealed w

variable {raws : List RawKey} {r : Rotator}

lemma forall₂_modify {dks : List DataKey} (drawn : List.Forall₂ Genuine dks raws)
    {f : DataKey → DataKey} (keeps : ∀ dk raw,Genuine dk raw → Genuine (f dk) raw) (a : Nat) :
    List.Forall₂ Genuine (dks.modify a f) raws := by
  induction drawn generalizing a with
  | nil =>
    rw [modify_nil]
    exact .nil
  | cons head tail ih =>
    cases a with
    | zero => exact .cons (keeps _ _ head) tail
    | succ a => exact .cons head (ih a)

lemma retire_genuine (drawn : List.Forall₂ Genuine r.records raws) :
    List.Forall₂ Genuine r.retire.records raws := by
  rw [retire]
  split_ifs
  · split
    · refine forall₂_modify drawn (fun dk raw genuine => ?_) _
      rw [retired]
      split_ifs with active
      · rw [Genuine,active] at genuine
        exact genuine
      · exact genuine
    · exact drawn
  · exact drawn

lemma revokeKey_genuine (drawn : List.Forall₂ Genuine r.records raws) (id : String) :
    List.Forall₂ Genuine (r.revokeKey id).2.records raws := by
  rw [revokeKey]
  split
  · exact drawn
  · have destroyed := forall₂_modify drawn (f := destroy) (fun dk raw _ => rfl) (by assumption)
    rw [deactivate]
    split_ifs <;> exact destroyed

variable {aead : Aead} {w : World C}

lemma Sealed.put (sealed : Sealed w) (c : C) {call : Call} (none_ : ∀ made,call ≠ .returned (.ok made)) :
    Sealed (w.put c call) := by
  intro d made returned
  rw [World.put] at returned
  dsimp only at returned
  by_cases here : d = c
  · rw [here,update_self] at returned
    exact absurd returned (none_ made)
  · rw [update_of_ne here] at returned
    exact sealed d made returned

variable {a : Nat}

omit [DecidableEq C] in
lemma Inv.genuine (inv : Inv w) {dk : DataKey} (read : w.rotator.records[a]? = some dk) :
    ∃ raw,w.generated[a]? = some raw ∧ Genuine dk raw := by
  obtain ⟨inside,rfl⟩ := List.getElem?_eq_some_iff.mp read
  have inside' := inv.drawn.length_eq ▸ inside
  exact ⟨w.generated[a],getElem?_eq_getElem inside',inv.drawn.get inside inside'⟩

lemma Inv.sealed_made (inv : Inv w) (r : Rotator) (c : C) {env : Envelope} {key : RawKey} :
    Sealed (({ w with rotator := r } : World C).put c (.returned (.ok ⟨env,a,key⟩))) ↔ w.generated[a]? = some key := by
  constructor
  · intro sealed
    exact sealed c _ (update_self ..)
  · intro same d made returned
    rw [put] at returned
    dsimp only at returned
    by_cases here : d = c
    · rw [here,update_self] at returned
      cases returned
      exact same
    · rw [update_of_ne here] at returned
      exact inv.sealed d made returned

lemma finish_sealed_iff (inv : Inv w) (c : C) (nonce : Nonce) :
    Sealed (w.finish aead c (some nonce)) ↔ Clean w (.finish c (some nonce)) := by
  rw [finish]
  cases call : w.call c with
  | checked a plaintext aad =>
    dsimp only
    cases read : w.rotator.records[a]? with
    | none =>
      refine iff_of_true inv.sealed (fun a' plaintext' aad' dk call' read' => ?_)
      rw [call] at call'
      cases call'
      rw [read] at read'
      cases read'
    | some dk =>
      obtain ⟨raw,drew,genuine⟩ := inv.genuine read
      rw [inv.sealed_made]
      constructor
      · intro same a' plaintext' aad' dk' call' read' revoked
        rw [call] at call'
        cases call'
        rw [read] at read'
        cases read'
        rw [Genuine,if_pos revoked] at genuine
        rw [same,genuine]
      · intro clean
        by_cases revoked : dk.state = .revoked
        · rw [clean a plaintext aad dk call read revoked,genuine,if_pos revoked]
        · rw [drew,genuine,if_neg revoked]
  | _ =>
    refine iff_of_true inv.sealed (fun a plaintext aad dk call' => ?_)
    rw [call] at call'
    cases call'

lemma finish_failed (inv : Inv w) (c : C) : Sealed (w.finish aead c none) := by
  rw [finish]
  split
  · split
    · exact inv.sealed
    · exact inv.sealed.put c nofun
    next failed => cases failed
  · exact inv.sealed

lemma sealed_step_iff (inv : Inv w) (choice : Choice C) : Sealed (w.step aead choice) ↔ Clean w choice := by
  cases choice with
  | look c plaintext aad =>
    refine iff_of_true ?_ trivial
    rw [step]
    split
    · split
      all_goals exact inv.sealed.put c nofun
    · exact inv.sealed
  | check c =>
    refine iff_of_true ?_ trivial
    rw [step,check]
    split
    · split
      · exact inv.sealed
      · split_ifs
        all_goals exact inv.sealed.put c nofun
    · exact inv.sealed
  | finish c nonce =>
    cases nonce with
    | none => exact iff_of_true (finish_failed inv c) trivial
    | some nonce => exact finish_sealed_iff inv c nonce
  | rotate draw =>
    refine iff_of_true (fun c made returned => ?_) trivial
    have before := inv.sealed c made returned
    rw [step]
    rw [List.getElem?_append_left (List.getElem?_eq_some_iff.mp before).1]
    exact before
  | revokeKey id => exact iff_of_true inv.sealed trivial

lemma step_genuine (inv : Inv w) (choice : Choice C) :
    List.Forall₂ Genuine (w.step aead choice).rotator.records (w.step aead choice).generated := by
  cases choice with
  | look c plaintext aad =>
    rw [step]
    split
    · split <;> exact inv.drawn
    · exact inv.drawn
  | check c =>
    rw [step,check]
    split
    · split
      · exact inv.drawn
      · split_ifs <;> exact inv.drawn
    · exact inv.drawn
  | finish c nonce =>
    rw [step,finish]
    split
    · split
      · exact inv.drawn
      · exact inv.drawn
      · exact forall₂_modify inv.drawn (f := count) (fun dk raw genuine => genuine) _
    · exact inv.drawn
  | rotate draw =>
    cases draw with
    | none =>
      rw [step,Option.map_none,Option.toList_none,append_nil]
      exact inv.drawn
    | some draw => exact rel_append (retire_genuine inv.drawn) (.cons rfl .nil)
  | revokeKey id => exact revokeKey_genuine inv.drawn id

omit [DecidableEq C] in
lemma init_inv (maxOperations : UInt64) (draw : Draw) : Inv (init maxOperations draw : World C) :=
  ⟨.cons rfl .nil,nofun⟩

/-- In a run, every envelope that `Encrypt` returns was sealed under bytes that `Rotate` drew,
exactly if no key is revoked between the check of its state and the read of its bytes. -/
theorem sealed_iff_clean (aead : Aead) (maxOperations : UInt64) (draw : Draw) (choices : List (Choice C)) :
    Throughout (step aead) Sealed (init maxOperations draw) choices ↔
      Along (step aead) Clean (init maxOperations draw : World C) choices := by
  rw [throughout_iff_along (init_inv maxOperations draw).sealed]
  exact Along.congr (P := Inv) (fun w choice inv clean => ⟨step_genuine inv choice,(sealed_step_iff inv choice).mpr clean⟩)
    (fun w choice inv => sealed_step_iff inv choice) (init_inv maxOperations draw)

/-- The key is revoked between the check and the read: the envelope is sealed under zeros. -/
theorem sealed_under_zeros :
    ¬Throughout (step World.plainAead) Sealed (init 0 ⟨Vector.replicate 32 7,[1]⟩ : World Unit)
      [.look () [1] [],.check (),.revokeKey (keyID 1 [1]),.finish () (some (Vector.replicate 12 0))] := by
  intro throughout
  have read := throughout _ prefix_rfl () _ rfl
  revert read
  decide +kernel

end World

end Tempest.KeyRotator.Race
