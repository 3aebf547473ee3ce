import Tempest.Edits
import Tempest.Lib.ByteReader

/-! The binary form of a patch. Strings are their bytes, and a value is `none` where the
source has `nil`. The encoding of values is a parameter. -/
namespace Tempest.Deltadiff.Binary
open BigEndian ByteReader List

/-- `encoding/json`, with the text of its error where it fails. -/
structure JsonCodec (V : Type) where
  marshal : V → Except Str (List UInt8)
  unmarshal : List UInt8 → Except Str (Option V)

structure Operation (V : Type) where
  op : OpType
  path : List UInt8
  fromPath : List UInt8
  value : Option V
  deriving DecidableEq

inductive BinaryError
  | marshal (cause : Str)
  | corrupt
  | invalidMagic
  | unsupportedVersion (got : UInt8)
  | malformedValue (cause : Str)
  deriving DecidableEq

def errCorruptBinaryPatch : String := "deltadiff: corrupt or truncated binary patch data"

def errUnsupportedVersion : String := "deltadiff: unsupported binary patch version"

def binaryMagicHeader : List UInt8 := [0x54,0x50,0x54,0x48]

def binaryVersion : UInt8 := 1

def BinaryError.text : BinaryError → String
  | .marshal cause => "failed to marshal op value: " ++ String.ofList cause
  | .corrupt => errCorruptBinaryPatch
  | .invalidMagic => errCorruptBinaryPatch ++ ": invalid magic header"
  | .unsupportedVersion got =>
    errUnsupportedVersion ++ ": got " ++ toString got.toNat ++ " want " ++ toString binaryVersion.toNat
  | .malformedValue cause => errCorruptBinaryPatch ++ ": malformed value json: " ++ String.ofList cause

def opTypeToByte : OpType → UInt8
  | .add => 0
  | .remove => 1
  | .replace => 2
  | .move => 3
  | .copy => 4
  | .test => 5
  | .other _ => 255

def byteToOpType (b : UInt8) : OpType :=
  if b = 0 then .add
  else if b = 1 then .remove
  else if b = 2 then .replace
  else if b = 3 then .move
  else if b = 4 then .copy
  else if b = 5 then .test
  else .other ['u','n','k','n','o','w','n']

variable {V : Type}

def valueBytes (json : JsonCodec V) : Option V → Except Str (List UInt8)
  | none => .ok []
  | some v => json.marshal v

def framed (width : Nat) (data : List UInt8) : List UInt8 := bytes width data.length ++ data

def encodeOperation (json : JsonCodec V) (op : Operation V) : Except BinaryError (List UInt8) :=
  match valueBytes json op.value with
  | .error cause => .error (.marshal cause)
  | .ok valBytes =>
    .ok (opTypeToByte op.op :: (framed 2 op.path ++ (framed 2 op.fromPath ++ framed 4 valBytes)))

def encodeOperations (json : JsonCodec V) : List (Operation V) → Except BinaryError (List UInt8)
  | [] => .ok []
  | op :: ops => do
    let first ← encodeOperation json op
    let others ← encodeOperations json ops
    return first ++ others

def encodeBinary (json : JsonCodec V) (patch : List (Operation V)) : Except BinaryError (List UInt8) := do
  let ops ← encodeOperations json patch
  return binaryMagicHeader ++ ([binaryVersion] ++ (bytes 4 patch.length ++ ops))

def orCorrupt {α : Type} : Option α → Except BinaryError α
  | none => .error .corrupt
  | some a => .ok a

def readPath (data : List UInt8) : Option (List UInt8 × List UInt8) := do
  let (pathLen,data) ← readUint 2 data
  read pathLen data

def readFrom (data : List UInt8) : Option (List UInt8 × List UInt8) := do
  let (fromLen,data) ← readUint 2 data
  if fromLen > 0 then read fromLen data else return ([],data)

def readValue (json : JsonCodec V) (data : List UInt8) : Except BinaryError (Option V × List UInt8) := do
  let (valLen,data) ← orCorrupt (readUint 4 data)
  if valLen > 0 then
    let (valBytes,data) ← orCorrupt (read valLen data)
    match json.unmarshal valBytes with
    | .ok val => return (val,data)
    | .error cause => .error (.malformedValue cause)
  else return (none,data)

def decodeOperation (json : JsonCodec V) (data : List UInt8) : Except BinaryError (Operation V × List UInt8) := do
  let (opCode,data) ← orCorrupt (readByte data)
  let (path,data) ← orCorrupt (readPath data)
  let (fromStr,data) ← orCorrupt (readFrom data)
  let (val,data) ← readValue json data
  return (⟨byteToOpType opCode,path,fromStr,val⟩,data)

def decodeOperations (json : JsonCodec V) : Nat → List UInt8 → Except BinaryError (List (Operation V))
  | 0,_ => .ok []
  | count + 1,data => do
    let (op,data) ← decodeOperation json data
    let ops ← decodeOperations json count data
    return op :: ops

def decodeBinary (json : JsonCodec V) (data : List UInt8) : Except BinaryError (List (Operation V)) :=
  if data.length < 9 then .error .corrupt
  else if data.take 4 ≠ binaryMagicHeader then .error .invalidMagic
  else
    match data.drop 4 with
    | [] => .error .corrupt
    | version :: data =>
      if version ≠ binaryVersion then .error (.unsupportedVersion version)
      else do
        let (count,data) ← orCorrupt (readUint 4 data)
        decodeOperations json count data

def isValidOp : OpType → Bool
  | .other _ => false
  | _ => true

def JsonCodec.RoundTrips (json : JsonCodec V) : Prop :=
  ∀ v data,json.marshal v = .ok data → data ≠ [] ∧ json.unmarshal data = .ok (some v)

def JsonCodec.RefusesCut (json : JsonCodec V) : Prop :=
  ∀ v data t,json.marshal v = .ok data → Cut t data → json.unmarshal t ≠ .ok (some v)

def JsonCodec.RefusesPadded (json : JsonCodec V) : Prop :=
  ∀ v data t,json.marshal v = .ok data → Cut t data →
    ∀ w,json.unmarshal (t ++ List.replicate (data.length - t.length) 0) ≠ .ok w

variable {α : Type} {rest data e t : List UInt8} {json : JsonCodec V} {op : Operation V} {m n : Nat} {value : Option V}
  {ops patch : List (Operation V)} {a : α}

@[simp] lemma ok_bind {ε β : Type} (a : α) (f : α → Except ε β) : (Except.ok a >>= f) = f a := rfl

lemma orCorrupt_eq_ok {x : Option α} : orCorrupt x = .ok a ↔ x = some a := by
  cases x with
  | none => exact ⟨nofun,nofun⟩
  | some b => exact ⟨fun same => by cases same; rfl,fun same => by cases same; rfl⟩

lemma readPath_framed (path : List UInt8) (more : rest ≠ []) : readPath (framed 2 path ++ rest) =
      some (path.take (path.length % 65536),path.drop (path.length % 65536) ++ rest) := by
  have low : path.length % 65536 ≤ path.length := Nat.mod_le _ _
  rw [readPath,framed,append_assoc,readUint_bytes]
  simp only [Option.bind_eq_bind,Option.bind_some,show 256 ^ 2 = 65536 from rfl]
  rw [read_enough (by simp [more]) (by rw [length_append]; omega),take_append_of_le_length low,
    drop_append_of_le_length low]

lemma readFrom_framed (fromPath rest : List UInt8) : readFrom (framed 2 fromPath ++ rest) =
      some (fromPath.take (fromPath.length % 65536),fromPath.drop (fromPath.length % 65536) ++ rest) := by
  have low : fromPath.length % 65536 ≤ fromPath.length := Nat.mod_le _ _
  rw [readFrom,framed,append_assoc,readUint_bytes]
  simp only [Option.bind_eq_bind,Option.bind_some,show 256 ^ 2 = 65536 from rfl]
  split
  · rename_i positive
    have some : fromPath ++ rest ≠ [] := by
      intro none
      rw [append_eq_nil_iff] at none
      rw [none.1] at positive
      cases positive
    rw [read_enough some (by rw [length_append]; omega),take_append_of_le_length low,
      drop_append_of_le_length low]
  · rename_i zero
    rw [Nat.eq_zero_of_not_pos zero]
    rfl

lemma readValue_zero (json : JsonCodec V) (rest : List UInt8)
    (zero : data.length % 4294967296 = 0) : readValue json (framed 4 data ++ rest) = .ok (none,data ++ rest) := by
  rw [readValue,framed,append_assoc,readUint_bytes,show 256 ^ 4 = 4294967296 from rfl,zero]
  rfl

lemma readValue_framed (json : JsonCodec V) (rest : List UInt8)
    (positive : data.length % 4294967296 > 0) :
    readValue json (framed 4 data ++ rest) =
      match json.unmarshal (data.take (data.length % 4294967296)) with
      | .ok val => .ok (val,data.drop (data.length % 4294967296) ++ rest)
      | .error cause => .error (.malformedValue cause) := by
  have low : data.length % 4294967296 ≤ data.length := Nat.mod_le _ _
  have some : data ++ rest ≠ [] := by
    intro none
    rw [append_eq_nil_iff] at none
    rw [none.1] at positive
    cases positive
  rw [readValue,framed,append_assoc,readUint_bytes,orCorrupt,show 256 ^ 4 = 4294967296 from rfl]
  simp only [ok_bind,if_pos positive]
  rw [read_enough some (by rw [length_append]; omega),take_append_of_le_length low,
    drop_append_of_le_length low]
  rfl

/-- The lengths of an operation that its binary form has room for. -/
structure Fits (json : JsonCodec V) (op : Operation V) : Prop where
  path : op.path.length < 65536
  fromPath : op.fromPath.length < 65536
  value : ∀ data,valueBytes json op.value = .ok data → data.length < 4294967296

def ReadsBack (json : JsonCodec V) (value : Option V) : Prop :=
  ∀ data,valueBytes json value = .ok data →
    if data = [] then value = none else json.unmarshal data = .ok value

lemma encodeOperation_eq_ok (encoded : encodeOperation json op = .ok e) :
    ∃ data,valueBytes json op.value = .ok data ∧
      e = opTypeToByte op.op :: (framed 2 op.path ++ (framed 2 op.fromPath ++ framed 4 data)) := by
  rw [encodeOperation] at encoded
  split at encoded
  · cases encoded
  · rename_i data marshaled
    exact ⟨data,marshaled,(Except.ok.inj encoded).symm⟩

lemma framed_ne_nil {width : Nat} (positive : 0 < width) (data : List UInt8) : framed width data ≠ [] := by
  intro none
  have length := congrArg List.length none
  rw [framed,length_append,bytes_length,length_nil] at length
  omega

lemma decodeOperation_cons (json : JsonCodec V) (code : UInt8) (path : List UInt8)
    (more : rest ≠ []) :
    decodeOperation json (code :: (framed 2 path ++ rest)) = do
      let (fromStr,data) ← orCorrupt (readFrom (path.drop (path.length % 65536) ++ rest))
      let (val,data) ← readValue json data
      return (⟨byteToOpType code,path.take (path.length % 65536),fromStr,val⟩,data) := by
  rw [decodeOperation,readByte,orCorrupt]
  simp only [ok_bind,readPath_framed path more]
  rfl

lemma take_mod_eq (fits : data.length < m) : data.take (data.length % m) = data := by
  rw [Nat.mod_eq_of_lt fits,take_length]

lemma drop_mod_eq (fits : data.length < m) : data.drop (data.length % m) = [] := by
  rw [Nat.mod_eq_of_lt fits,drop_length]

lemma lt_of_take_mod (positive : 0 < m) (whole : data.take (data.length % m) = data) : data.length < m := by
  have length := congrArg List.length whole
  rw [length_take] at length
  have low := Nat.mod_lt data.length positive
  omega

lemma readValue_fits (marshaled : valueBytes json value = .ok data) (fits : data.length < 4294967296)
    (back : ReadsBack json value) (rest : List UInt8) :
    readValue json (framed 4 data ++ rest) = .ok (value,rest) := by
  have back := back data marshaled
  by_cases empty : data = []
  · rw [if_pos empty] at back
    rw [empty,readValue_zero json rest rfl,back]
    rfl
  · rw [if_neg empty] at back
    have positive : data.length % 4294967296 > 0 := by
      rw [Nat.mod_eq_of_lt fits]
      exact length_pos_iff.mpr empty
    rw [readValue_framed json rest positive,take_mod_eq fits,drop_mod_eq fits,back]
    rfl

lemma decodeOperation_fits (encoded : encodeOperation json op = .ok e) (fits : Fits json op) (back : ReadsBack json op.value)
    (rest : List UInt8) :
    decodeOperation json (e ++ rest) = .ok ({ op with op := byteToOpType (opTypeToByte op.op) },rest) := by
  obtain ⟨data,marshaled,rfl⟩ := encodeOperation_eq_ok encoded
  rw [cons_append,append_assoc,append_assoc,
    decodeOperation_cons json _ _ (by simp [framed_ne_nil]),take_mod_eq fits.path,drop_mod_eq fits.path,
    nil_append,readFrom_framed,take_mod_eq fits.fromPath,drop_mod_eq fits.fromPath,nil_append,orCorrupt]
  simp only [ok_bind,readValue_fits marshaled (fits.value data marshaled) back]
  rfl

lemma readValue_eq_ok {rest' : List UInt8}
    (refuses : json.RefusesCut) (marshaled : valueBytes json value = .ok data)
    (decoded : readValue json (framed 4 data ++ rest) = .ok (value,rest')) :
    data.length < 4294967296 ∧ ReadsBack json value := by
  have only : ∀ other,valueBytes json value = .ok other → other = data := by
    intro other same
    rw [marshaled] at same
    exact (Except.ok.inj same).symm
  by_cases zero : data.length % 4294967296 = 0
  · rw [readValue_zero json rest zero] at decoded
    cases decoded
    cases marshaled
    refine ⟨by decide,fun other same => ?_⟩
    rw [only other same]
    rfl
  · rw [readValue_framed json rest (Nat.pos_of_ne_zero zero)] at decoded
    cases unmarshaled : json.unmarshal (data.take (data.length % 4294967296)) with
    | error cause =>
      rw [unmarshaled] at decoded
      cases decoded
    | ok val =>
      rw [unmarshaled] at decoded
      obtain ⟨rfl,-⟩ := Prod.mk.inj (Except.ok.inj decoded)
      have whole : data.take (data.length % 4294967296) = data := by
        by_contra proper
        have cut : Cut (data.take (data.length % 4294967296)) data := ⟨ take_prefix _ _,proper⟩
        cases val with
        | none =>
          cases marshaled
          exact zero rfl
        | some v => exact refuses v data _ marshaled cut unmarshaled
      refine ⟨lt_of_take_mod (by decide) whole,fun other same => ?_⟩
      rw [only other same,if_neg (by rintro rfl; exact zero rfl),← whole]
      exact unmarshaled

lemma fits_of_decoded (refuses : json.RefusesCut) {rest' : List UInt8} (encoded : encodeOperation json op = .ok e)
    (decoded : decodeOperation json (e ++ rest) = .ok (op,rest')) : Fits json op ∧ ReadsBack json op.value := by
  obtain ⟨data,marshaled,rfl⟩ := encodeOperation_eq_ok encoded
  rw [cons_append,append_assoc,append_assoc,
    decodeOperation_cons json _ _ (by simp [framed_ne_nil])] at decoded
  obtain ⟨⟨fromStr,afterFrom⟩,fromRead,decoded⟩ := ok_of_bind decoded
  obtain ⟨⟨val,after⟩,valueRead,decoded⟩ := ok_of_bind decoded
  have same := congrArg Prod.fst (Except.ok.inj decoded)
  have path := lt_of_take_mod (by decide) (congrArg Operation.path same)
  have fromSame := congrArg Operation.fromPath same
  have valueSame := congrArg Operation.value same
  subst fromSame valueSame
  -- the path fits, so the length that is read next is that of the second string
  rw [drop_mod_eq path,nil_append,readFrom_framed,orCorrupt_eq_ok,Option.some.injEq,Prod.mk.injEq] at fromRead
  have fromPath := lt_of_take_mod (by decide) fromRead.1
  rw [drop_mod_eq fromPath] at fromRead
  rw [← fromRead.2] at valueRead
  obtain ⟨value,back⟩ := readValue_eq_ok refuses marshaled valueRead
  refine ⟨⟨path,fromPath,fun other same => ?_⟩,back⟩
  rw [marshaled] at same
  cases same
  exact value

lemma encodeOperations_cons (encoded : encodeOperations json (op :: ops) = .ok data) :
    ∃ e others,encodeOperation json op = .ok e ∧ encodeOperations json ops = .ok others ∧ data = e ++ others := by
  obtain ⟨e,first,encoded⟩ := ok_of_bind encoded
  obtain ⟨others,second,encoded⟩ := ok_of_bind encoded
  exact ⟨e,others,first,second,(Except.ok.inj encoded).symm⟩

lemma encodeBinary_eq_ok {b : List UInt8} (encoded : encodeBinary json patch = .ok b) :
    ∃ ops,encodeOperations json patch = .ok ops ∧
      b = binaryMagicHeader ++ ([binaryVersion] ++ (bytes 4 patch.length ++ ops)) := by
  obtain ⟨ops,first,encoded⟩ := ok_of_bind encoded
  exact ⟨ops,first,(Except.ok.inj encoded).symm⟩

lemma decodeBinary_header (json : JsonCodec V) (n : Nat) (data : List UInt8) :
    decodeBinary json (binaryMagicHeader ++ ([binaryVersion] ++ (bytes 4 n ++ data))) =
      decodeOperations json (n % 4294967296) data := by
  have long : ¬(binaryMagicHeader ++ ([binaryVersion] ++ (bytes 4 n ++ data))).length < 9 := by
    simp only [length_append,bytes_length,binaryMagicHeader,length_cons,length_nil]
    omega
  have magic : (binaryMagicHeader ++ ([binaryVersion] ++ (bytes 4 n ++ data))).take 4 = binaryMagicHeader :=
    take_left' rfl
  have version : (binaryMagicHeader ++ ([binaryVersion] ++ (bytes 4 n ++ data))).drop 4 =
      binaryVersion :: (bytes 4 n ++ data) := drop_left' rfl
  rw [decodeBinary,version]
  simp only [ne_eq,not_true_eq_false,if_false,readUint_bytes,orCorrupt,ok_bind]
  rfl

lemma decodeOperations_succ (decoded : decodeOperations json (n + 1) data = .ok ops) :
    ∃ op rest others,decodeOperation json data = .ok (op,rest) ∧ decodeOperations json n rest = .ok others ∧
      ops = op :: others := by
  obtain ⟨⟨op,rest⟩,first,decoded⟩ := ok_of_bind decoded
  obtain ⟨others,second,decoded⟩ := ok_of_bind decoded
  exact ⟨op,rest,others,first,second,(Except.ok.inj decoded).symm⟩

lemma decodeOperations_length (decoded : decodeOperations json n data = .ok ops) : ops.length = n := by
  induction n generalizing data ops with
  | zero =>
    cases decoded
    rfl
  | succ n ih =>
    obtain ⟨op,rest,others,-,second,rfl⟩ := decodeOperations_succ decoded
    rw [length_cons,ih second]

lemma byteToOpType_opTypeToByte {op : OpType} (valid : isValidOp op = true) : byteToOpType (opTypeToByte op) = op := by
  cases op with
  | other name => cases valid
  | _ => rfl

lemma decodeOperations_fits (encoded : encodeOperations json patch = .ok data) (valid : ∀ op ∈ patch,isValidOp op.op = true)
    (fits : ∀ op ∈ patch,Fits json op) (back : ∀ op ∈ patch,ReadsBack json op.value) :
    decodeOperations json patch.length data = .ok patch := by
  induction patch generalizing data with
  | nil => rfl
  | cons op patch ih =>
    obtain ⟨e,others,first,second,rfl⟩ := encodeOperations_cons encoded
    have here := mem_cons_self (a := op) (l := patch)
    have tail := ih second (fun op member => valid op (.tail _ member)) (fun op member => fits op (.tail _ member))
      (fun op member => back op (.tail _ member))
    rw [length_cons,decodeOperations,decodeOperation_fits first (fits op here) (back op here),
      byteToOpType_opTypeToByte (valid op here)]
    simp only [ok_bind,tail]
    rfl

lemma fits_of_decodeOperations (refuses : json.RefusesCut) (encoded : encodeOperations json patch = .ok data)
    (decoded : decodeOperations json n data = .ok patch) :
    ∀ op ∈ patch,Fits json op ∧ ReadsBack json op.value := by
  induction patch generalizing n data with
  | nil => nofun
  | cons op patch ih =>
    obtain ⟨e,others,first,second,rfl⟩ := encodeOperations_cons encoded
    cases n with
    | zero => cases decoded
    | succ n =>
      obtain ⟨op',rest,ops,head,tail,same⟩ := decodeOperations_succ decoded
      cases same
      have whole := fits_of_decoded refuses first head
      rw [decodeOperation_fits first whole.1 whole.2] at head
      obtain ⟨-,rfl⟩ := Prod.mk.inj (Except.ok.inj head)
      intro other member
      cases member with
      | head => exact whole
      | tail _ member => exact ih second tail other member

lemma readsBack_of_roundTrips (roundTrips : json.RoundTrips) (value : Option V) : ReadsBack json value := by
  intro data marshaled
  cases value with
  | none =>
    cases marshaled
    rfl
  | some v =>
    obtain ⟨some,back⟩ := roundTrips v data marshaled
    rw [if_neg some]
    exact back

/-- A patch that could be encoded is decoded as itself exactly if its count and the lengths
of its paths and values fit into the numbers that frame them. -/
theorem decodeBinary_eq_iff {json : JsonCodec V} (roundTrips : json.RoundTrips) (refuses : json.RefusesCut)
    {patch : List (Operation V)} (valid : ∀ op ∈ patch,isValidOp op.op = true) {b : List UInt8}
    (encoded : encodeBinary json patch = .ok b) :
    decodeBinary json b = .ok patch ↔ patch.length < 4294967296 ∧ ∀ op ∈ patch,Fits json op := by
  obtain ⟨ops,operations,rfl⟩ := encodeBinary_eq_ok encoded
  rw [decodeBinary_header]
  constructor
  · intro decoded
    have length := decodeOperations_length decoded
    have low := Nat.mod_lt patch.length (by decide : 0 < 4294967296)
    exact ⟨by omega,fun op member => (fits_of_decodeOperations refuses operations decoded op member).1⟩
  · rintro ⟨count,fits⟩
    rw [Nat.mod_eq_of_lt count]
    exact decodeOperations_fits operations valid fits (fun op _ => readsBack_of_roundTrips roundTrips op.value)

def boolCodec : JsonCodec Bool where
  marshal
    | true => .ok [0x74,0x72,0x75,0x65]
    | false => .ok [0x66,0x61,0x6c,0x73,0x65]
  unmarshal data :=
    if data = [0x74,0x72,0x75,0x65] then .ok (some true)
    else if data = [0x66,0x61,0x6c,0x73,0x65] then .ok (some false)
    else if data = [0x6e,0x75,0x6c,0x6c] then .ok none
    else .error ['i','n','v','a','l','i','d',' ','c','h','a','r','a','c','t','e','r']

lemma boolCodec_roundTrips : boolCodec.RoundTrips := by
  intro v data marshaled
  cases v with
  | true | false =>
    cases marshaled
    exact ⟨by decide,rfl⟩

lemma boolCodec_unmarshal {v : Bool} (marshaled : boolCodec.marshal v = .ok data)
    (unmarshaled : boolCodec.unmarshal t = .ok (some v)) : t = data := by
  simp only [boolCodec] at marshaled unmarshaled
  cases v with
  | true | false =>
    cases marshaled
    split_ifs at unmarshaled <;> cases unmarshaled
    assumption

lemma boolCodec_refusesCut : boolCodec.RefusesCut := by
  intro v data t marshaled cut unmarshaled
  exact cut.2 (boolCodec_unmarshal marshaled unmarshaled)

lemma boolCodec_refusesPadded : boolCodec.RefusesPadded := by
  intro v data t marshaled cut w unmarshaled
  have zero : 0 ∈ t ++ List.replicate (data.length - t.length) 0 := by
    have := cut.length
    exact mem_append_right t (mem_replicate.mpr ⟨by omega,rfl⟩)
  simp only [boolCodec] at unmarshaled
  split_ifs at unmarshaled with text text text <;>
  · rw [text] at zero
    revert zero
    decide

theorem boolean_decoded :
    decodeBinary boolCodec (binaryMagicHeader ++ [1,0,0,0,1,0,0,2,0x2f,0x61,0,0,0,0,0,4,0x74,0x72,0x75,0x65]) =
      .ok [⟨.add,[0x2f,0x61],[],some true⟩] := by
  refine (decodeBinary_eq_iff boolCodec_roundTrips boolCodec_refusesCut (by decide) rfl).mpr ⟨by decide,?_⟩
  rintro op member
  cases mem_singleton.mp member
  refine ⟨by decide,by decide,fun data marshaled => ?_⟩
  cases marshaled
  decide

/-- The length of a path of 65536 bytes is written as zero. -/
theorem long_path_lost :
    ∃ b,encodeBinary boolCodec [⟨.remove,0x2f :: List.replicate 65535 0x61,[],none⟩] = .ok b ∧
      decodeBinary boolCodec b ≠ .ok [⟨.remove,0x2f :: List.replicate 65535 0x61,[],none⟩] := by
  refine ⟨_,rfl,fun decoded => ?_⟩
  rw [decodeBinary_header] at decoded
  have fits := fits_of_decodeOperations boolCodec_refusesCut rfl decoded _ mem_cons_self
  have length := fits.1.path
  rw [length_cons,length_replicate] at length
  exact absurd length (by decide)

lemma readPath_start {path : List UInt8} (fits : path.length < 65536) (start : t <+: framed 2 path) :
    Ends (readPath t) := by
  obtain inside | ⟨u,-,rfl,inner⟩ := start_append start
  · obtain refused | ⟨n,done⟩ := readUint_start inside
    · exact .inl (by rw [readPath,refused]; rfl)
    · exact .inl (by rw [readPath,done]; rfl)
  · rw [readPath,readUint_fits fits]
    exact read_start inner.length_le

lemma readFrom_start {fromPath : List UInt8} (fits : fromPath.length < 65536) (start : t <+: framed 2 fromPath) :
    Ends (readFrom t) := by
  obtain inside | ⟨u,some,rfl,inner⟩ := start_append start
  · obtain refused | ⟨n,done⟩ := readUint_start inside
    · exact .inl (by rw [readFrom,refused]; rfl)
    · rw [readFrom,done]
      simp only [Option.bind_eq_bind,Option.bind_some]
      split
      · exact .inl rfl
      · exact .inr ⟨[],rfl⟩
  · have positive : fromPath.length > 0 := by
      have := length_pos_iff.mpr some
      have := inner.length_le
      omega
    rw [readFrom,readUint_fits fits]
    simp only [Option.bind_eq_bind,Option.bind_some,if_pos positive]
    exact read_start inner.length_le

lemma readValue_cut (refuses : json.RefusesPadded)
    (marshaled : valueBytes json value = .ok data) (fits : data.length < 4294967296) (cut : Cut t (framed 4 data))
    (result : Option V × List UInt8) : readValue json t ≠ .ok result := by
  intro accepted
  obtain ⟨⟨n,rest⟩,length,decoded⟩ := ok_of_bind accepted
  rw [orCorrupt_eq_ok] at length
  obtain inside | ⟨u,some,rfl,inner⟩ := cut.append
  · -- the length is there, but no byte of the text
    have whole : t = bytes 4 data.length := by
      refine inside.eq_of_length_le ?_
      by_contra short
      rw [bytes_length,not_le] at short
      rw [readUint_short short] at length
      cases length
    have positive : data.length > 0 := by
      refine length_pos_iff.mpr ?_
      rintro rfl
      exact cut.2 (by rw [whole,framed,append_nil])
    have read : readUint 4 (bytes 4 data.length ++ []) = some (data.length,[]) := readUint_fits fits []
    rw [append_nil,← whole,length] at read
    cases read
    simp only [if_pos positive] at decoded
    cases decoded
  · rw [readUint_fits fits] at length
    obtain ⟨rfl,rfl⟩ := Prod.mk.inj (Option.some.inj length)
    have short := inner.length
    simp only [if_pos (show data.length > 0 by omega),read_short some (by omega : u.length ≤ data.length),
      orCorrupt,ok_bind] at decoded
    cases value with
    | none =>
      cases marshaled
      cases short
    | some v =>
      have refused := refuses v data u marshaled inner
      cases unmarshaled : json.unmarshal (u ++ List.replicate (data.length - u.length) 0) with
      | ok w => exact refused w unmarshaled
      | error cause =>
        rw [unmarshaled] at decoded
        cases decoded

lemma after_ends {x : Option (α × List UInt8)} (ends : Ends x) (done : x = some (a,rest)) : rest = [] := by
  obtain refused | ⟨b,left⟩ := ends
  · rw [refused] at done
    cases done
  · rw [left] at done
    cases done
    rfl

lemma decodeOperation_cut (refuses : json.RefusesPadded)
    (encoded : encodeOperation json op = .ok e) (fits : Fits json op) (cut : Cut t e)
    (result : Operation V × List UInt8) : decodeOperation json t ≠ .ok result := by
  obtain ⟨data,marshaled,rfl⟩ := encodeOperation_eq_ok encoded
  intro accepted
  obtain ⟨⟨code,afterCode⟩,byteRead,accepted⟩ := ok_of_bind accepted
  obtain ⟨⟨path,afterPath⟩,pathRead,accepted⟩ := ok_of_bind accepted
  obtain ⟨⟨fromStr,afterFrom⟩,fromRead,accepted⟩ := ok_of_bind accepted
  obtain ⟨⟨val,after⟩,valueRead,-⟩ := ok_of_bind accepted
  rw [orCorrupt_eq_ok] at byteRead pathRead fromRead
  have inPath : Cut afterCode (framed 2 op.path ++ (framed 2 op.fromPath ++ framed 4 data)) := by
    cases t with
    | nil => cases byteRead
    | cons b t =>
      obtain ⟨-,rfl⟩ := Prod.mk.inj (Option.some.inj byteRead)
      obtain ⟨rfl,start⟩ := cons_prefix_cons.mp cut.1
      exact ⟨start,fun same => cut.2 (by rw [same])⟩
  -- a cut inside a string is noticed at the next length, which is not there any more
  obtain inside | ⟨u,some,rfl,inFrom⟩ := inPath.append
  · rw [after_ends (readPath_start fits.path inside) pathRead] at fromRead
    cases fromRead
  · rw [readPath_framed op.path some,drop_mod_eq fits.path] at pathRead
    obtain ⟨-,rfl⟩ := Prod.mk.inj (Option.some.inj pathRead)
    obtain inside | ⟨w,-,rfl,inValue⟩ := inFrom.append
    · rw [after_ends (readFrom_start fits.fromPath inside) fromRead] at valueRead
      cases valueRead
    · rw [nil_append,readFrom_framed,drop_mod_eq fits.fromPath] at fromRead
      obtain ⟨-,rfl⟩ := Prod.mk.inj (Option.some.inj fromRead)
      exact readValue_cut refuses marshaled (fits.value data marshaled) inValue (val,after) valueRead

lemma decodeOperations_cut (refuses : json.RefusesPadded) (encoded : encodeOperations json patch = .ok data)
    (fits : ∀ op ∈ patch,Fits json op ∧ ReadsBack json op.value) (cut : Cut t data) (ops : List (Operation V)) :
    decodeOperations json patch.length t ≠ .ok ops := by
  induction patch generalizing data t ops with
  | nil =>
    cases encoded
    exact absurd cut.length (Nat.not_lt_zero _)
  | cons op patch ih =>
    obtain ⟨e,others,first,second,rfl⟩ := encodeOperations_cons encoded
    have here := fits op mem_cons_self
    intro decoded
    obtain ⟨head,rest,tail,opRead,tailRead,-⟩ := decodeOperations_succ decoded
    obtain inside | ⟨u,rfl,inOthers⟩ := cut.append_or
    · exact decodeOperation_cut refuses first here.1 inside (head,rest) opRead
    · rw [decodeOperation_fits first here.1 here.2] at opRead
      obtain ⟨-,rfl⟩ := Prod.mk.inj (Except.ok.inj opRead)
      exact ih second (fun op member => fits op (.tail _ member)) inOthers tail tailRead

/-- A patch whose encoding is decoded as itself is refused when any of its last bytes are
missing. -/
theorem truncated_refused {json : JsonCodec V} (refusesCut : json.RefusesCut) (refusesPadded : json.RefusesPadded)
    {patch : List (Operation V)} {b : List UInt8} (encoded : encodeBinary json patch = .ok b)
    (decoded : decodeBinary json b = .ok patch) {t : List UInt8} (cut : Cut t b) :
    ∃ e,decodeBinary json t = .error e := by
  obtain ⟨ops,operations,rfl⟩ := encodeBinary_eq_ok encoded
  rw [decodeBinary_header] at decoded
  have fits := fits_of_decodeOperations refusesCut operations decoded
  have count := decodeOperations_length decoded
  have header : (binaryMagicHeader ++ ([binaryVersion] ++ bytes 4 patch.length)).length = 9 := by
    rw [length_append]
    rfl
  rw [← append_assoc [binaryVersion],← append_assoc binaryMagicHeader] at cut
  obtain short | ⟨u,rfl,inside⟩ := cut.append_or
  · exact ⟨.corrupt,if_pos (by rw [← header]; exact short.length)⟩
  · rw [append_assoc,append_assoc,decodeBinary_header,← count]
    cases result : decodeOperations json patch.length u with
    | error e => exact ⟨e,rfl⟩
    | ok found => exact absurd result (decodeOperations_cut refusesPadded operations fits inside found)

theorem truncated_boolean :
    Cut (binaryMagicHeader ++ [1,0,0,0,1,0,0,2,0x2f,0x61,0,0,0,0,0,4,0x74,0x72])
        (binaryMagicHeader ++ [1,0,0,0,1,0,0,2,0x2f,0x61,0,0,0,0,0,4,0x74,0x72,0x75,0x65]) ∧
      ∃ e,decodeBinary boolCodec (binaryMagicHeader ++ [1,0,0,0,1,0,0,2,0x2f,0x61,0,0,0,0,0,4,0x74,0x72]) = .error e := by
  have cut : Cut (binaryMagicHeader ++ [1,0,0,0,1,0,0,2,0x2f,0x61,0,0,0,0,0,4,0x74,0x72])
      (binaryMagicHeader ++ [1,0,0,0,1,0,0,2,0x2f,0x61,0,0,0,0,0,4,0x74,0x72,0x75,0x65]) :=
    ⟨⟨[0x75,0x65],rfl⟩,by decide⟩
  have encoded : encodeBinary boolCodec [⟨.add,[0x2f,0x61],[],some true⟩] =
      .ok (binaryMagicHeader ++ [1,0,0,0,1,0,0,2,0x2f,0x61,0,0,0,0,0,4,0x74,0x72,0x75,0x65]) := rfl
  exact ⟨cut,truncated_refused boolCodec_refusesCut boolCodec_refusesPadded encoded (by decide +kernel) cut⟩

end Tempest.Deltadiff.Binary
