import Tempest.Ring
import Tempest.Lib.Counter
import Tempest.Lib.Interaction

/-! A consumer of the ring buffer. `Next` reads the write position and the frame in two
sections of their own, so that entries may be appended between them. Next to the buffer
and the cursor stand the entries that were accepted and the frames that were returned. -/
open List
namespace Tempest.Ring
open Circular Interaction RingBuffer

structure Cursor where
  offset : Nat
  lastSeq : UInt64 := 0

def RingBuffer.newCursor (r : RingBuffer) (startOffset : Nat) : Cursor := ⟨startOffset % r.capacity,0⟩

variable {frame : Frame}

namespace Cursor

def ready (c : Cursor) (r : RingBuffer) : Bool := c.offset ≠ r.writePos

def read (c : Cursor) (r : RingBuffer) : Except RingError Frame × Cursor :=
  match r.readFrameAt c.offset with
  | .error e => (.error e,c)
  | .ok (frame,nextOffset) =>
    if c.lastSeq > 0 ∧ frame.header.seq ≤ c.lastSeq then (.error .cursorExpired,c)
    else (.ok frame,⟨nextOffset,frame.header.seq⟩)

def next (c : Cursor) (r : RingBuffer) : Except RingError (Option Frame) × Cursor :=
  if c.ready r then ((c.read r).1.map some,(c.read r).2) else (.ok none,c)

variable {c : Cursor} {r : RingBuffer}

lemma read_ok {nextOffset : Nat}
    (found : r.readFrameAt c.offset = .ok (frame,nextOffset)) (newer : c.lastSeq < frame.header.seq) :
    c.read r = (.ok frame,⟨nextOffset,frame.header.seq⟩) := by
  rw [read,found]
  exact if_neg (fun expired => UInt64.not_le.mpr newer expired.2)

lemma of_read_ok (success : (c.read r).1 = .ok frame) :
    (∃ nextOffset,r.readFrameAt c.offset = .ok (frame,nextOffset)) ∧
      ¬ (c.lastSeq > 0 ∧ frame.header.seq ≤ c.lastSeq) := by
  rw [read] at success
  cases found : r.readFrameAt c.offset with
  | error e =>
    rw [found] at success
    cases success
  | ok result =>
    obtain ⟨other,nextOffset⟩ := result
    rw [found] at success
    dsimp only at success
    split_ifs at success with expired
    cases success
    exact ⟨⟨nextOffset,rfl⟩,expired⟩

end Cursor

/-- An entry that was appended, with the number it got. -/
structure Item where
  seq : UInt64
  payload : List UInt8
  deriving DecidableEq

def Frame.item (frame : Frame) : Item := ⟨frame.header.seq,frame.payload⟩

def written (items : List Item) : List UInt8 := items.flatMap (fun i => frameBytes i.seq i.payload)

def occupied (items : List Item) : Nat := (items.map (fun i => headerSize + i.payload.length)).sum

lemma written_append (first second : List Item) : written (first ++ second) = written first ++ written second :=
  flatMap_append

lemma written_singleton (item : Item) : written [item] = frameBytes item.seq item.payload :=
  flatMap_singleton _ _

lemma written_length (items : List Item) : (written items).length = occupied items := by
  induction items with
  | nil => rfl
  | cons item rest ih =>
    rw [written,flatMap_cons,length_append,frameBytes_length,occupied,map_cons]
    exact congrArg (headerSize + item.payload.length + ·) ih

lemma occupied_append (first second : List Item) : occupied (first ++ second) = occupied first + occupied second := by
  rw [← written_length,written_append,length_append,written_length,written_length]

variable {items : List Item}

lemma occupied_eq_zero : occupied items = 0 ↔ items = [] := by
  cases items with
  | nil => exact ⟨fun _ => rfl,fun _ => rfl⟩
  | cons item rest =>
    simp only [occupied,map_cons,sum_cons,headerSize,reduceCtorEq,iff_false]
    omega

inductive Event
  | append (payload : List UInt8)
  | look
  | read

structure Session where
  ring : RingBuffer
  cursor : Cursor
  /-- A call of `Next` is between its sections. -/
  looked : Bool := false
  appended : List Item := []
  delivered : List Frame := []

namespace Session

def start (capacity : Int) : Session := ⟨new capacity,(new capacity).newCursor 0,false,[],[]⟩

variable (s : Session)

def unread : List Item := s.appended.drop s.delivered.length

def append (payload : List UInt8) : Session :=
  match s.ring.append payload with
  | (.ok seq,ring) => { s with ring := ring, appended := s.appended ++ [⟨seq,payload⟩] }
  | (.error _,ring) => { s with ring := ring }

def read : Session :=
  match s.cursor.read s.ring with
  | (.ok frame,cursor) => { s with cursor := cursor, looked := false, delivered := s.delivered ++ [frame] }
  | (.error _,cursor) => { s with cursor := cursor, looked := false }

def step (s : Session) : Event → Session
  | .append payload => s.append payload
  | .look => if s.looked then s else { s with looked := s.cursor.ready s.ring }
  | .read => if s.looked then s.read else s

def Bounded (s : Session) : Event → Prop
  | .append payload =>
    headerSize + payload.length ≤ s.ring.capacity →
      occupied s.unread + (headerSize + payload.length) ≤ s.ring.capacity
  | .look => True
  | .read => True

def InOrder : Prop := s.delivered.map Frame.item <+: s.appended

/-- No frame is reported only when all entries were read, and a frame that is read is the
first of those that were not. -/
def Exact (s : Session) : Event → Prop
  | .append _ => True
  | .look => s.looked = false → s.cursor.ready s.ring = false → s.unread = []
  | .read => s.looked = true → ∃ frame, (s.cursor.read s.ring).1 = .ok frame ∧ s.unread.head? = some frame.item

/-- The unread entries do not fill the whole buffer when the write position is looked
at. The entry that is read next has a number that did not start over and a length that
the header can hold. -/
def Clear (s : Session) : Event → Prop
  | .append _ => True
  | .look => s.looked = false → occupied s.unread ≠ s.ring.capacity
  | .read => s.looked = true → ∀ item ∈ s.unread.head?, item.seq ≠ 0 ∧ item.payload.length < 2 ^ 32

instance : ∀ event, Decidable (s.Bounded event)
  | .append _ => inferInstanceAs (Decidable (_ → _))
  | .look => .isTrue trivial
  | .read => .isTrue trivial

instance : ∀ event, Decidable (s.Clear event)
  | .append _ => .isTrue trivial
  | .look => inferInstanceAs (Decidable (_ → _))
  | .read => inferInstanceAs (Decidable (_ → ∀ item ∈ s.unread.head?, _))

/-- The buffer holds the bytes of all entries, the cursor stands behind those it has
returned, and the entries are numbered from one on. -/
structure Sound : Prop where
  holds : s.ring.Holds (written s.appended)
  inOrder : s.InOrder
  offset : s.cursor.offset = occupied (s.delivered.map Frame.item) % s.ring.capacity
  room : occupied s.unread ≤ s.ring.capacity
  numbered : ∀ i item, s.appended[i]? = some item → item.seq = UInt64.ofNat i + 1
  nextSeq : s.ring.nextSeq = UInt64.ofNat s.appended.length + 1
  lastSeq : s.cursor.lastSeq = UInt64.ofNat s.delivered.length
  waiting : s.looked = true → s.unread ≠ []

variable {s}

lemma sound_start (capacity : Int) : (start capacity).Sound where
  holds := new_holds capacity
  inOrder := nil_prefix
  offset := rfl
  room := Nat.zero_le _
  numbered := fun i item found => by cases found
  nextSeq := rfl
  lastSeq := rfl
  waiting := fun looked => by cases looked

lemma InOrder.split (inOrder : s.InOrder) : s.appended = s.delivered.map Frame.item ++ s.unread := by
  obtain ⟨rest,whole⟩ := inOrder
  rw [unread,← whole,drop_left' (length_map _)]

lemma Sound.occupied_appended (sound : s.Sound) :
    occupied s.appended = occupied (s.delivered.map Frame.item) + occupied s.unread := by
  conv => lhs; rw [sound.inOrder.split]
  exact occupied_append _ _

lemma Sound.ready_iff (sound : s.Sound) :
    s.cursor.ready s.ring = false ↔ s.unread = [] ∨ occupied s.unread = s.ring.capacity := by
  have place : s.ring.writePos = (occupied (s.delivered.map Frame.item) + occupied s.unread) % s.ring.capacity := by
    rw [sound.holds.position,written_length,sound.occupied_appended]
  rw [Cursor.ready,decide_eq_false_iff_not,Decidable.not_not,sound.offset,place,eq_comm,place_same sound.room,
    occupied_eq_zero]

variable {payload : List UInt8} {item : Item} {rest : List Item}

lemma append_full (full : ¬ headerSize + payload.length ≤ s.ring.capacity) : s.append payload = s := by
  rw [append,RingBuffer.append,if_pos (Nat.not_le.mp full)]

lemma append_accepted (ok : (s.ring.append payload).1 = .ok s.ring.nextSeq) :
    s.append payload = ⟨(s.ring.append payload).2,s.cursor,s.looked,s.appended ++ [⟨s.ring.nextSeq,payload⟩],
      s.delivered⟩ := by
  rw [append]
  split
  next seq ring result =>
    rw [result] at ok ⊢
    cases ok
    rfl
  next error ring result =>
    rw [result] at ok
    cases ok

lemma InOrder.unread_append (inOrder : s.InOrder) (items : List Item) :
    (s.appended ++ items).drop s.delivered.length = s.unread ++ items := by
  have short := inOrder.length_le
  rw [length_map] at short
  rw [drop_append_of_le_length short,unread]

lemma numbered_concat (numbered : ∀ i item,items[i]? = some item → item.seq = UInt64.ofNat i + 1)
    {seq : UInt64} (next : seq = UInt64.ofNat items.length + 1) :
    ∀ i item,(items ++ [(⟨seq,payload⟩ : Item)])[i]? = some item → item.seq = UInt64.ofNat i + 1 := by
  intro i item found
  rcases Nat.lt_or_ge i items.length with old | new
  · rw [getElem?_append_left old] at found
    exact numbered i item found
  · rw [getElem?_append_right new] at found
    obtain ⟨last,same⟩ := List.getElem?_eq_some_iff.mp found
    have here : i = items.length := by
      rw [length_singleton] at last
      omega
    rw [getElem_singleton] at same
    rw [← same,here]
    exact next

lemma sound_append (sound : s.Sound) (bounded : s.Bounded (.append payload)) : (s.append payload).Sound := by
  by_cases fits : headerSize + payload.length ≤ s.ring.capacity
  · obtain ⟨ok,holds,capacity,next⟩ := sound.holds.append fits
    have unread := sound.inOrder.unread_append [⟨s.ring.nextSeq,payload⟩]
    rw [append_accepted ok]
    refine ⟨?_,?_,?_,?_,?_,?_,sound.lastSeq,?_⟩
    · rw [written_append,written_singleton]
      exact holds
    · exact sound.inOrder.trans (prefix_append _ _)
    · rw [capacity]
      exact sound.offset
    · rw [Session.unread,unread,occupied_append,capacity]
      exact bounded fits
    · exact numbered_concat sound.numbered sound.nextSeq
    · rw [next,length_append,UInt64.ofNat_add,sound.nextSeq]
      rfl
    · intro looked
      rw [Session.unread,unread]
      exact append_ne_nil_of_left_ne_nil (sound.waiting looked) _
  · rw [append_full fits]
    exact sound

lemma Sound.found (sound : s.Sound) (first : s.unread = item :: rest) :
    (written s.appended).drop (occupied (s.delivered.map Frame.item)) =
      frameBytes item.seq item.payload ++ written rest ∧ item.seq = s.cursor.lastSeq + 1 := by
  have whole := sound.inOrder.split
  rw [first] at whole
  refine ⟨?_,?_⟩
  · rw [whole,written_append,drop_left' (written_length _)]
    rfl
  · rw [sound.lastSeq]
    apply sound.numbered
    rw [whole,getElem?_append_right (Nat.le_of_eq (length_map _)),length_map,Nat.sub_self]
    rfl

lemma Sound.readFrameAt (sound : s.Sound) (first : s.unread = item :: rest) :
    s.ring.readFrameAt s.cursor.offset =
      if computeChecksum (item.payload.take (item.payload.length % 2 ^ 32)) ≠ computeChecksum item.payload then
        .error .checksumFailed
      else .ok (⟨header item.seq item.payload,item.payload.take (item.payload.length % 2 ^ 32)⟩,
        (occupied (s.delivered.map Frame.item) + headerSize + item.payload.length % 2 ^ 32) % s.ring.capacity) := by
  rw [sound.offset]
  apply sound.holds.readFrameAt (sound.found first).1
  rw [written_length,sound.occupied_appended]
  exact Nat.add_le_add_left sound.room _

lemma Sound.read_ok (sound : s.Sound) (first : s.unread = item :: rest)
    (numbered : item.seq ≠ 0) (short : item.payload.length < 2 ^ 32) :
    s.cursor.read s.ring = (.ok ⟨header item.seq item.payload,item.payload⟩,
      ⟨occupied (s.delivered.map Frame.item ++ [item]) % s.ring.capacity,item.seq⟩) := by
  have found := sound.readFrameAt first
  have newer := (sound.found first).2
  rw [Nat.mod_eq_of_lt short,take_length,if_neg (not_not_intro rfl),Nat.add_assoc] at found
  have next : s.cursor.lastSeq < item.seq := by
    rw [newer] at numbered ⊢
    exact Counter.lt_next numbered
  rw [occupied_append]
  exact Cursor.read_ok found next

lemma read_delivered {cursor : Cursor} (ok : s.cursor.read s.ring = (.ok frame,cursor)) :
    s.read = ⟨s.ring,cursor,false,s.appended,s.delivered ++ [frame]⟩ := by
  rw [read,ok]

section
variable (sound : s.Sound)
include sound

lemma sound_read (clear : s.Clear .read) : (s.step .read).Sound := by
  rw [step]
  split_ifs with looked
  · obtain ⟨item,rest,first⟩ := exists_cons_of_ne_nil (sound.waiting looked)
    obtain ⟨numbered,short⟩ := clear looked item (by rw [first]; rfl)
    have whole := sound.inOrder.split
    have left : s.appended.drop (s.delivered.length + 1) = rest := by
      rw [← tail_drop,← unread,first,tail_cons]
    rw [read_delivered (sound.read_ok first numbered short)]
    refine ⟨sound.holds,?_,?_,?_,sound.numbered,sound.nextSeq,?_,fun looked => by cases looked⟩
    · rw [InOrder,map_append,whole,first]
      exact ⟨rest,append_assoc _ _ _⟩
    · rw [map_append]
      rfl
    · have room := sound.room
      rw [first,← singleton_append] at room
      rw [unread,length_append,length_singleton,left]
      exact Nat.le_trans (Nat.le_add_left _ _) room
    · rw [length_append,UInt64.ofNat_add,← sound.lastSeq]
      exact (sound.found first).2
  · exact sound

lemma sound_look : (s.step .look).Sound := by
  rw [step]
  split_ifs with looked
  · exact sound
  · refine ⟨sound.holds,sound.inOrder,sound.offset,sound.room,sound.numbered,sound.nextSeq,sound.lastSeq,?_⟩
    intro ready empty
    have idle := sound.ready_iff.mpr (.inl empty)
    exact Bool.false_ne_true (idle.symm.trans ready)

lemma sound_step {event : Event} (bounded : s.Bounded event) (clear : s.Clear event) : (s.step event).Sound := by
  cases event with
  | append payload => exact sound_append sound bounded
  | look => exact sound_look sound
  | read => exact sound_read sound clear

lemma Sound.exact_look_iff : s.Exact .look ↔ s.Clear .look := by
  have room := Nat.zero_lt_of_lt s.ring.inside
  apply forall_congr'
  intro idle
  rw [sound.ready_iff]
  constructor
  · intro exact whole
    have none := occupied_eq_zero.mpr (exact (.inr whole))
    omega
  · intro clear head
    exact head.resolve_right clear

lemma Sound.exact_read_iff : s.Exact .read ↔ s.Clear .read := by
  apply forall_congr'
  intro looked
  obtain ⟨item,rest,first⟩ := exists_cons_of_ne_nil (sound.waiting looked)
  rw [first]
  constructor
  · rintro ⟨frame,success,same⟩ other member
    cases member
    obtain ⟨⟨nextOffset,found⟩,newer⟩ := Cursor.of_read_ok success
    rw [sound.readFrameAt first] at found
    split_ifs at found
    cases found
    refine ⟨?_,?_⟩
    · intro zero
      have before : s.cursor.lastSeq ≠ 0 := by
        intro none
        rw [(sound.found first).2,none] at zero
        cases zero
      apply newer
      refine ⟨UInt64.pos_iff_ne_zero.mpr before,?_⟩
      rw [zero]
      exact UInt64.zero_le
    · have payload : item.payload = item.payload.take (item.payload.length % 2 ^ 32) :=
        congrArg Item.payload (Option.some.inj same)
      have length := congrArg List.length payload
      rw [length_take] at length
      omega
  · intro clear
    obtain ⟨numbered,short⟩ := clear item rfl
    rw [sound.read_ok first numbered short]
    exact ⟨_,rfl,rfl⟩

lemma Sound.exact_iff (event : Event) : s.Exact event ↔ s.Clear event := by
  cases event with
  | append payload => exact Iff.rfl
  | look => exact sound.exact_look_iff
  | read => exact sound.exact_read_iff

lemma along_exact_iff {events : List Event} (bounded : Along step Bounded s events) :
    Along step Exact s events ↔ Along step Clear s events := by
  induction events generalizing s with
  | nil => exact Iff.rfl
  | cons event rest ih =>
    have later :=
      fun clear => ih (sound_step sound bounded.1 clear) bounded.2
    rw [Along,sound.exact_iff event]
    exact and_congr_right later

end

/-- As long as the unread entries take no more bytes than the buffer has, frames are
delivered in order and without a gap exactly if the unread entries never fill the whole
buffer at a look, and no entry is read whose number started over or whose length does
not fit into the header. -/
theorem delivers_iff_clear (capacity : Int) (events : List Event)
    (bounded : Along step Bounded (start capacity) events) :
    Throughout step InOrder (start capacity) events ∧ Along step Exact (start capacity) events ↔
      Along step Clear (start capacity) events := by
  have same := along_exact_iff (sound_start capacity) bounded
  constructor
  · rintro ⟨-,exact⟩
    exact same.mp exact
  · intro clear
    have sound : Throughout step Sound (start capacity) events :=
      Along.throughout (fun s event sound both => sound_step sound both.1 both.2) (sound_start capacity)
        (bounded.and clear)
    exact ⟨sound.mono (fun _ sound => sound.inOrder),same.mpr clear⟩

/-- Entries that wrap around the end of the buffer. -/
theorem wrapped_delivered :
    let events : List Event := [.append [1,2,3,4],.look,.append [5,6],.read,.look,.read,.append [8,9],.look,.read,.look]
    Along step Bounded (start 60) events ∧ Throughout step InOrder (start 60) events ∧
      Along step Exact (start 60) events :=
  ⟨by decide +kernel,(delivers_iff_clear 60 _ (by decide +kernel)).mpr (by decide +kernel)⟩

/-- One entry fills the buffer, and no frame is reported. -/
theorem full_buffer_unseen :
    let events : List Event := [.append (List.replicate 28 7),.look]
    let s := (start 50).append (List.replicate 28 7)
    Along step Bounded (start 50) events ∧ s.unread = [⟨1,List.replicate 28 7⟩] ∧
      (s.cursor.next s.ring).1 = .ok none ∧ ¬ Along step Exact (start 50) events := by
  refine ⟨by decide +kernel,by decide +kernel,by decide +kernel,?_⟩
  rintro ⟨-,look,-⟩
  have none := look (by decide +kernel) (by decide +kernel)
  exact absurd none (by decide +kernel)

end Session

end Tempest.Ring
