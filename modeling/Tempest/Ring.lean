import Tempest.Lib.BigEndian
import Tempest.Lib.Circular

/-! The ring buffer of framed entries. A frame is a header of fixed size followed by the
payload; both are written into the circular memory in chunks that end where it ends. -/
open List
namespace Tempest.Ring
open Circular

inductive RingError
  | invalidMagic
  | corruptHeader
  | checksumFailed
  | bufferFull
  | cursorExpired
  deriving DecidableEq

def RingError.text : RingError → String
  | .invalidMagic => "mmapring: invalid frame magic bytes"
  | .corruptHeader => "mmapring: frame header corrupted or too short"
  | .checksumFailed => "mmapring: frame payload checksum verification failed"
  | .bufferFull => "mmapring: ring buffer capacity exceeded"
  | .cursorExpired => "mmapring: consumer cursor has been overwritten by ring buffer"

def frameMagic : UInt32 := 0x544D5052

def headerSize : Nat := 22

structure Header where
  magic : UInt32
  seq : UInt64
  length : UInt32
  checksum : UInt32
  flags : UInt16
  deriving DecidableEq

structure Frame where
  header : Header
  payload : List UInt8
  deriving DecidableEq

variable (h : Header)

namespace Header

def encode (h : Header) : List UInt8 :=
  BigEndian.bytes 4 h.magic.toNat ++ (BigEndian.bytes 8 h.seq.toNat ++ (BigEndian.bytes 4 h.length.toNat ++
    (BigEndian.bytes 4 h.checksum.toNat ++ BigEndian.bytes 2 h.flags.toNat)))

lemma encode_length : h.encode.length = headerSize := by
  simp only [encode,length_append,BigEndian.bytes_length]
  rfl

end Header

def field (src : List UInt8) (first width : Nat) : Nat := BigEndian.value ((src.drop first).take width)

def decodeHeader (src : List UInt8) : Except RingError Header :=
  if src.length < headerSize then .error .corruptHeader
  else if UInt32.ofNat (field src 0 4) ≠ frameMagic then .error .invalidMagic
  else .ok ⟨UInt32.ofNat (field src 0 4),UInt64.ofNat (field src 4 8),UInt32.ofNat (field src 12 4),
    UInt32.ofNat (field src 16 4),UInt16.ofNat (field src 20 2)⟩

lemma field_head (after : List UInt8) {width n : Nat} (small : n < 256 ^ width) :
    field (BigEndian.bytes width n ++ after) 0 width = n := by
  rw [field,drop_zero,take_left' (BigEndian.bytes_length width n),BigEndian.value_bytes,
    Nat.mod_eq_of_lt small]

lemma field_skip (skipped n : Nat) (src : List UInt8) (first width : Nat) :
    field (BigEndian.bytes skipped n ++ src) (skipped + first) width = field src first width := by
  rw [field,← drop_drop,drop_left' (BigEndian.bytes_length skipped n)]
  rfl

lemma decodeHeader_encode (magic : h.magic = frameMagic) : decodeHeader h.encode = .ok h := by
  have first : field h.encode 0 4 = h.magic.toNat := field_head _ h.magic.toNat_lt
  have second : field h.encode 4 8 = h.seq.toNat :=
    (field_skip 4 _ _ 0 8).trans (field_head _ h.seq.toNat_lt)
  have third : field h.encode 12 4 = h.length.toNat :=
    (field_skip 4 _ _ 8 4).trans ((field_skip 8 _ _ 0 4).trans (field_head _ h.length.toNat_lt))
  have fourth : field h.encode 16 4 = h.checksum.toNat :=
    (field_skip 4 _ _ 12 4).trans ((field_skip 8 _ _ 4 4).trans
      ((field_skip 4 _ _ 0 4).trans (field_head _ h.checksum.toNat_lt)))
  have flags : field (BigEndian.bytes 2 h.flags.toNat) 0 2 = h.flags.toNat := by
    exact field_head [] h.flags.toNat_lt
  have fifth : field h.encode 20 2 = h.flags.toNat :=
    (field_skip 4 _ _ 16 2).trans ((field_skip 8 _ _ 8 2).trans
      ((field_skip 4 _ _ 4 2).trans ((field_skip 4 _ _ 0 2).trans flags)))
  rw [decodeHeader,if_neg (by rw [h.encode_length]; exact Nat.lt_irrefl _),first,second,third,fourth,fifth]
  simp only [UInt32.ofNat_toNat,UInt64.ofNat_toNat,UInt16.ofNat_toNat]
  rw [if_neg (not_not_intro magic)]

def crcBit (crc : UInt32) : UInt32 :=
  if crc &&& 1 = 1 then (crc >>> 1) ^^^ 0xEDB88320 else crc >>> 1

def crcByte (crc : UInt32) (byte : UInt8) : UInt32 := Nat.repeat crcBit 8 (crc ^^^ byte.toUInt32)

def computeChecksum (data : List UInt8) : UInt32 := data.foldl crcByte 0xFFFFFFFF ^^^ 0xFFFFFFFF

-- the check value of CRC-32 is its checksum of the digits 1 to 9
example : computeChecksum [49,50,51,52,53,54,55,56,57] = 0xCBF43926 := by decide +kernel

structure RingBuffer where
  capacity : Nat
  data : List UInt8
  writePos : Nat := 0
  nextSeq : UInt64 := 1
  totalBytes : UInt64 := 0
  sized : data.length = capacity
  inside : writePos < capacity

namespace RingBuffer

def capacityOf (capacity : Int) : Nat := if capacity ≤ headerSize * 2 then 64 * 1024 else capacity.toNat

variable (capacity : Int)

lemma capacityOf_pos : 0 < capacityOf capacity := by
  rw [capacityOf]
  split_ifs with small
  · decide
  · simp only [headerSize] at small
    omega

def new (capacity : Int) : RingBuffer where
  capacity := capacityOf capacity
  data := List.replicate (capacityOf capacity) 0
  sized := List.length_replicate
  inside := capacityOf_pos capacity

variable (r : RingBuffer)

def chunk (pos size : Nat) : Nat := min size (r.capacity - pos)

variable {pos : Nat}

lemma chunk_fits (inside : pos < r.capacity) (part : List UInt8) :
    pos + (part.take (r.chunk pos part.length)).length ≤ r.data.length := by
  rw [length_take,chunk,r.sized]
  omega

def writeChunk (part : List UInt8) : RingBuffer :=
  { r with
    data := splice r.data r.writePos (part.take (r.chunk r.writePos part.length))
    writePos := (r.writePos + r.chunk r.writePos part.length) % r.capacity
    sized := (splice_length (r.chunk_fits r.inside part)).trans r.sized
    inside := Nat.mod_lt _ (Nat.zero_lt_of_lt r.inside) }

/-- The loop of `writeBytesLocked`. Each of its rounds copies at least one byte, so it
ends within as many rounds as there are bytes. -/
def writeLoop : Nat → RingBuffer → List UInt8 → RingBuffer
  | 0, r, _ => r
  | fuel + 1, r, part =>
    if part = [] then r
    else writeLoop fuel (r.writeChunk part) (part.drop (r.chunk r.writePos part.length))

def writeBytesLocked (part : List UInt8) : RingBuffer := writeLoop part.length r part

def readLoop : Nat → Nat → Nat → List UInt8
  | 0, _, _ => []
  | fuel + 1, pos, size =>
    if size = 0 then []
    else (r.data.drop pos).take (r.chunk pos size) ++
      readLoop fuel ((pos + r.chunk pos size) % r.capacity) (size - r.chunk pos size)

def readBytesLocked (offset size : Nat) : List UInt8 := r.readLoop size (offset % r.capacity) size

def header (seq : UInt64) (payload : List UInt8) : Header where
  magic := frameMagic
  seq := seq
  length := UInt32.ofNat payload.length
  checksum := computeChecksum payload
  flags := 0

def append (payload : List UInt8) : Except RingError UInt64 × RingBuffer :=
  if headerSize + payload.length > r.capacity then (.error .bufferFull,r)
  else
    let written := (r.writeBytesLocked (header r.nextSeq payload).encode).writeBytesLocked payload
    (.ok r.nextSeq,
      { written with
        nextSeq := r.nextSeq + 1
        totalBytes := r.totalBytes + UInt64.ofNat (headerSize + payload.length) })

def readFrameAt (offset : Nat) : Except RingError (Frame × Nat) := do
  let hdr ← decodeHeader (r.readBytesLocked offset headerSize)
  let payload := r.readBytesLocked (offset + headerSize) hdr.length.toNat
  if computeChecksum payload ≠ hdr.checksum then .error .checksumFailed
  else .ok (⟨hdr,payload⟩,(offset + headerSize + hdr.length.toNat) % r.capacity)

/-- The bytes that were written so far end at the write position, and the last of them
are in the memory. -/
structure Holds (r : RingBuffer) (stream : List UInt8) : Prop where
  window : Window r.data stream
  position : r.writePos = stream.length % r.capacity

variable {r} {stream : List UInt8}

lemma new_holds : (new capacity).Holds [] :=
  ⟨window_nil _,(Nat.zero_mod _).symm⟩

variable {size fuel k : Nat} {payload : List UInt8}

lemma chunk_pos (inside : pos < r.capacity) (some : size ≠ 0) : 0 < r.chunk pos size :=
  Nat.lt_min.mpr ⟨Nat.pos_of_ne_zero some,Nat.sub_pos_of_lt inside⟩

section
variable (holds : r.Holds stream)
include holds

lemma Holds.writeChunk (part : List UInt8) :
    (r.writeChunk part).Holds (stream ++ part.take (r.chunk r.writePos part.length)) := by
  have size : (part.take (r.chunk r.writePos part.length)).length = r.chunk r.writePos part.length :=
    length_take_of_le (Nat.min_le_left _ _)
  refine ⟨?_,?_⟩
  · apply holds.window.splice
    · rw [r.sized]
      exact holds.position
    · exact r.chunk_fits r.inside part
  · rw [length_append,size]
    change (r.writePos + r.chunk r.writePos part.length) % r.capacity = _ % r.capacity
    rw [← Nat.mod_add_mod stream.length,← holds.position]

lemma Holds.writeLoop {part : List UInt8} (enough : part.length ≤ fuel) :
    (writeLoop fuel r part).Holds (stream ++ part) ∧ (RingBuffer.writeLoop fuel r part).capacity = r.capacity := by
  induction fuel generalizing r part stream with
  | zero =>
    rw [length_eq_zero_iff.mp (Nat.le_zero.mp enough),append_nil]
    exact ⟨holds,rfl⟩
  | succ fuel ih =>
    rw [RingBuffer.writeLoop]
    split_ifs with empty
    · rw [empty,append_nil]
      exact ⟨holds,rfl⟩
    · have progress := chunk_pos r.inside (mt length_eq_zero_iff.mp empty)
      have shorter : (part.drop (r.chunk r.writePos part.length)).length ≤ fuel := by
        rw [length_drop]
        omega
      have rest := ih (holds.writeChunk part) shorter
      rw [append_assoc,take_append_drop] at rest
      exact rest

lemma Holds.readLoop (enough : size ≤ fuel)
    (inside : k + size ≤ stream.length) (recent : stream.length ≤ k + r.capacity) :
    r.readLoop fuel (k % r.capacity) size = (stream.drop k).take size := by
  induction fuel generalizing k size with
  | zero =>
    rw [Nat.le_zero.mp enough]
    rfl
  | succ fuel ih =>
    rw [RingBuffer.readLoop]
    split_ifs with none
    · rw [none,take_zero]
    · have place := Nat.mod_lt k (Nat.zero_lt_of_lt r.inside)
      have progress := chunk_pos place none
      have small : r.chunk (k % r.capacity) size ≤ size := Nat.min_le_left _ _
      have fits : k % r.capacity + r.chunk (k % r.capacity) size ≤ r.capacity := by
        rw [chunk]
        omega
      generalize r.chunk (k % r.capacity) size = chunk at *
      have here : (r.data.drop (k % r.capacity)).take chunk = (stream.drop k).take chunk := by
        rw [← r.sized] at fits recent ⊢
        exact holds.window.slice (by omega) recent fits
      rw [here,Nat.mod_add_mod,ih (by omega) (by omega) (by omega),← drop_drop,← take_add,
        Nat.add_sub_cancel' small]

lemma Holds.readBytesLocked {offset : Nat} (place : offset % r.capacity = k % r.capacity)
    (inside : k + size ≤ stream.length) (recent : stream.length ≤ k + r.capacity) :
    r.readBytesLocked offset size = (stream.drop k).take size := by
  rw [RingBuffer.readBytesLocked,place]
  exact holds.readLoop (Nat.le_refl size) inside recent

end

def frameBytes (seq : UInt64) (payload : List UInt8) : List UInt8 := (header seq payload).encode ++ payload

lemma frameBytes_length (seq : UInt64) (payload : List UInt8) :
    (frameBytes seq payload).length = headerSize + payload.length := by
  rw [frameBytes,length_append,Header.encode_length]

lemma Holds.append (holds : r.Holds stream) (fits : headerSize + payload.length ≤ r.capacity) :
    (r.append payload).1 = .ok r.nextSeq ∧ (r.append payload).2.Holds (stream ++ frameBytes r.nextSeq payload) ∧
      (r.append payload).2.capacity = r.capacity ∧ (r.append payload).2.nextSeq = r.nextSeq + 1 := by
  obtain ⟨head,same⟩ := holds.writeLoop (Nat.le_refl (header r.nextSeq payload).encode.length)
  obtain ⟨whole,kept⟩ := head.writeLoop (Nat.le_refl payload.length)
  rw [RingBuffer.append,if_neg (Nat.not_lt.mpr fits)]
  rw [append_assoc] at whole
  exact ⟨rfl,⟨whole.window,whole.position⟩,kept.trans same,rfl⟩

lemma Holds.readFrameAt {seq : UInt64} {rest : List UInt8} (holds : r.Holds stream)
    (found : stream.drop k = frameBytes seq payload ++ rest) (recent : stream.length ≤ k + r.capacity) :
    r.readFrameAt (k % r.capacity) =
      if computeChecksum (payload.take (payload.length % 2 ^ 32)) ≠ computeChecksum payload then .error .checksumFailed
      else .ok (⟨header seq payload,payload.take (payload.length % 2 ^ 32)⟩,
        (k + headerSize + payload.length % 2 ^ 32) % r.capacity) := by
  have size : k + (headerSize + payload.length) ≤ stream.length := by
    have length := congrArg List.length found
    rw [length_drop,length_append,frameBytes_length] at length
    simp only [headerSize] at length ⊢
    omega
  have short : payload.length % 2 ^ 32 ≤ payload.length := Nat.mod_le _ _
  have first : r.readBytesLocked (k % r.capacity) headerSize = (header seq payload).encode := by
    rw [holds.readBytesLocked (Nat.mod_mod k r.capacity) (by omega) recent,found,frameBytes,append_assoc,
      take_left' (Header.encode_length _)]
  have second : r.readBytesLocked (k % r.capacity + headerSize) (payload.length % 2 ^ 32) =
      payload.take (payload.length % 2 ^ 32) := by
    rw [holds.readBytesLocked (k := k + headerSize) (Nat.mod_add_mod ..) (by omega) (by omega),← drop_drop,found,
      frameBytes,append_assoc,drop_left' (Header.encode_length _),take_append_of_le_length short]
  have length : (header seq payload).length.toNat = payload.length % 2 ^ 32 := UInt32.toNat_ofNat'
  rw [RingBuffer.readFrameAt,first,decodeHeader_encode _ rfl]
  simp only [bind,Except.bind,length,second,Nat.add_assoc,Nat.mod_add_mod]
  rfl

end RingBuffer

end Tempest.Ring
