import Tempest.Edits
import Tempest.InPlace

/-! What a failed patch leaves of the caller's document. Each operation stores to the map or
the cells that its path leads to, so in every place there is what the last operation left
that stored to it. -/
namespace Tempest.Deltadiff.InPlace
open Association Heaps Heap

def holder (h : Memory) (root : Any) (parentTokens : List Str) : List Loc :=
  match parentTokens.getLast? with
  | none => []
  | some parentKey =>
    match getValue h root parentTokens.dropLast with
    | .ok (.map addr) => [.map addr]
    | .ok (.slice s) => (index parentKey s.len).elim [] (fun i => [.cell s.array (s.start + i)])
    | _ => []

def addStores (spare : Nat → Nat) (h : Memory) (target : Any) (tokens : List Str) (val : Any) : List Loc :=
  match tokens.getLast? with
  | none => []
  | some lastToken =>
    let (target,h) := rootOf h target
    match getValue h target tokens.dropLast with
    | .ok (.map addr) => [.map addr]
    | .ok (.slice s) =>
      if lastToken = ['-'] then
        appendStores s ++
          holder (h.append (List.replicate (spare (s.len + 1)) nil) s val).2 target tokens.dropLast
      else
        match index lastToken (s.len + 1) with
        | none => []
        | some i => holder (h.newSlice ((h.items s).take i ++ val :: (h.items s).drop i) []).2 target tokens.dropLast
    | _ => []

def removeStores (h : Memory) (target : Any) (tokens : List Str) : List Loc :=
  match tokens.getLast? with
  | none => []
  | some lastToken =>
    match getValue h target tokens.dropLast with
    | .ok (.map addr) => if find lastToken (h.members addr) = none then [] else [.map addr]
    | .ok (.slice s) =>
      match index lastToken s.len with
      | none => []
      | some i => Heap.removeStores s i ++ holder (h.removeAt s i).2 target tokens.dropLast
    | _ => []

def exchangeStores (spare : Nat → Nat) (h : Memory) (target : Any) (source tokens : List Str) (val : Any) : List Loc :=
  removeStores h target source ++
    match removeValue h target source with
    | (.ok t,h) => addStores spare h t tokens val
    | (.error _,_) => []

def operationStores (spare : Nat → Nat) (h : Memory) (target : Any) (op : PatchOperation) : List Loc :=
  match parsePointer op.path with
  | .error _ => []
  | .ok tokens =>
    match op.op with
    | .test => []
    | .add => addStores spare h target tokens op.value
    | .remove => removeStores h target tokens
    | .replace => exchangeStores spare h target tokens tokens op.value
    | .copy =>
      match parsePointer op.fromPath with
      | .error _ => []
      | .ok fromTokens =>
        match getValue h target fromTokens with
        | .error _ => []
        | .ok val => addStores spare h target tokens val
    | .move =>
      match parsePointer op.fromPath with
      | .error _ => []
      | .ok fromTokens =>
        match getValue h target fromTokens with
        | .error _ => []
        | .ok val => exchangeStores spare h target fromTokens tokens val
    | .other _ => []

variable {spare : Nat → Nat} {depth : Nat} {h : Memory}

lemma updateSliceInParent_frame (h : Memory) (root : Any) (parentTokens : List Str) (newSlice : Slice) :
    Frame h (updateSliceInParent h root parentTokens newSlice).2 (holder h root parentTokens) := by
  unfold updateSliceInParent holder
  cases parentTokens.getLast? with
  | none => exact .refl h
  | some parentKey =>
    cases getValue h root parentTokens.dropLast with
    | error e => exact .refl h
    | ok parent =>
      cases parent with
      | scalar s => exact .refl h
      | map addr => exact h.setMap_frame addr _
      | slice s =>
        dsimp only
        cases number : atoi parentKey with
        | none =>
          have none_ : index parentKey s.len = none := by rw [index,number]
          rw [none_]
          exact .refl h
        | some i =>
          dsimp only
          split_ifs with inside
          · have place : index parentKey s.len = some i.toNat := by rw [index,number]; exact if_pos inside
            rw [place]
            exact h.write_frame s.array (s.start + i.toNat) _
          · have none_ : index parentKey s.len = none := by rw [index,number]; exact if_neg inside
            rw [none_]
            exact .refl h

lemma rootOf_frame (h : Memory) (target : Any) : Frame h (rootOf h target).2 [] := by
  rw [rootOf]
  split_ifs
  · exact h.newMap_frame
  · exact .refl h

lemma addValue_frame (h : Memory) (target : Any) (tokens : List Str) (val : Any) :
    Frame h (addValue spare h target tokens val).2 (addStores spare h target tokens val) := by
  unfold addValue addStores
  cases tokens.getLast? with
  | none => exact .refl h
  | some lastToken =>
    have root := rootOf_frame h target
    revert root
    generalize rootOf h target = made
    obtain ⟨target,h'⟩ := made
    intro root
    dsimp only at root ⊢
    cases getValue h' target tokens.dropLast with
    | error e => exact root
    | ok parent =>
      cases parent with
      | scalar s => exact root
      | map addr => exact root.trans (h'.setMap_frame addr _)
      | slice s =>
        dsimp only
        split_ifs with last
        · exact root.trans ((h'.append_frame _ s val).trans (updateSliceInParent_frame _ target _ _))
        · cases index lastToken (s.len + 1) with
          | none => exact root
          | some i => exact root.trans ((h'.newSlice_frame _ []).trans (updateSliceInParent_frame _ target _ _))

lemma removeValue_frame (h : Memory) (target : Any) (tokens : List Str) :
    Frame h (removeValue h target tokens).2 (removeStores h target tokens) := by
  unfold removeValue removeStores
  cases tokens.getLast? with
  | none => exact .refl h
  | some lastToken =>
    cases getValue h target tokens.dropLast with
    | error e => exact .refl h
    | ok parent =>
      cases parent with
      | scalar s => exact .refl h
      | map addr =>
        dsimp only
        split_ifs with missing
        · exact .refl h
        · exact h.setMap_frame addr _
      | slice s =>
        dsimp only
        cases index lastToken s.len with
        | none => exact .refl h
        | some i => exact (h.removeAt_frame s i).trans (updateSliceInParent_frame _ target _ _)

lemma exchange_frame (h : Memory) (target : Any) (source tokens : List Str) (val : Any) :
    Frame h (andThen (removeValue h target source) (fun t h => addValue spare h t tokens val)).2
      (exchangeStores spare h target source tokens val) := by
  have first := removeValue_frame h target source
  unfold andThen exchangeStores
  revert first
  generalize removeValue h target source = removed
  obtain ⟨result,h'⟩ := removed
  intro first
  cases result with
  | ok t => exact first.trans (addValue_frame h' t tokens val)
  | error e => exact first.trans (.refl h')

lemma applyOperation_frame (h : Memory) (target : Any) (op : PatchOperation) :
    Frame h (applyOperation spare depth h target op).2 (operationStores spare h target op) := by
  unfold applyOperation operationStores
  cases parsePointer op.path with
  | error e => exact .refl h
  | ok tokens =>
    dsimp only
    cases op.op with
    | test =>
      cases getValue h target tokens with
      | error e => exact .refl h
      | ok val =>
        dsimp only
        split_ifs <;> exact .refl h
    | add => exact addValue_frame h target tokens op.value
    | remove => exact removeValue_frame h target tokens
    | replace => exact exchange_frame h target tokens tokens op.value
    | copy =>
      cases parsePointer op.fromPath with
      | error e => exact .refl h
      | ok fromTokens =>
        dsimp only
        cases getValue h target fromTokens with
        | error e => exact .refl h
        | ok val => exact addValue_frame h target tokens val
    | move =>
      cases parsePointer op.fromPath with
      | error e => exact .refl h
      | ok fromTokens =>
        dsimp only
        cases getValue h target fromTokens with
        | error e => exact .refl h
        | ok val => exact exchange_frame h target fromTokens tokens val
    | other name => exact .refl h

/-- What the last operation left in a place, up to the one that fails, of those that store to it. -/
def lastStore (spare : Nat → Nat) (depth : Nat) (l : Loc) : Memory → Any → Patch → Option (Option (List (Str × Any) ⊕ Any))
  | _,_,[] => none
  | h,current,op :: rest =>
    let (result,h') := applyOperation spare depth h current op
    let own := if l ∈ operationStores spare h current op then some (h'.load l) else none
    match result with
    | .ok next => (lastStore spare depth l h' next rest).or own
    | .error _ => own

lemma applyFrom_load {l : Loc} {i : Nat} {current : Any} {patch : Patch} (there : h.Holds l) :
    (applyFrom spare depth i h current patch).2.load l = (lastStore spare depth l h current patch).getD (h.load l) := by
  induction patch generalizing h current i with
  | nil => rfl
  | cons op rest ih =>
    have frame : Frame h (applyOperation spare depth h current op).2 (operationStores spare h current op) :=
      applyOperation_frame h current op
    rw [applyFrom,lastStore]
    revert frame
    generalize applyOperation spare depth h current op = outcome
    obtain ⟨result,h'⟩ := outcome
    intro frame
    dsimp only
    have own : (if l ∈ operationStores spare h current op then some (h'.load l) else none).getD (h.load l) = h'.load l := by
      split_ifs with stored
      · rfl
      · exact (frame.keeps l there stored).symm
    cases result with
    | error cause => exact own.symm
    | ok next =>
      dsimp only
      rw [ih (frame.grows l there),Option.getD_or,own]

def oneMember : Memory := ⟨[[(['a'],.scalar (.num 1))],[]],[]⟩

-- the second operation takes back what the first one did
example : apply id 1 oneMember (.map 0) [⟨.add,['/','b'],[],.scalar (.num 2)⟩,⟨.remove,['/','b'],[],nil⟩,
    ⟨.test,['/','a'],[],.scalar (.num 9)⟩] =
      (.error ⟨2,.test,['/','a'],.testFailed ['/','a'] (.scalar (.num 9)) (.scalar (.num 1))⟩,oneMember) := by
  rfl

end Tempest.Deltadiff.InPlace
