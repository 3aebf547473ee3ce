import Tempest.WalText
import Tempest.Lib.Interaction

/-! Truncation of the write-ahead log. Next to the log stand the entries that were
appended and not removed by a truncation since. -/
open List
namespace Tempest.Wal
open Interaction

inductive Op
  | append (entry : Entry) (now : Time)
  | truncate (afterIndex : Int)
  | readAll

structure Journal where
  wal : WAL
  log : List Entry := []

variable (codec : Codec)

namespace Journal

def kept (j : Journal) (afterIndex : Int) : List Entry := j.log.filter (fun e => e.index ≤ afterIndex)

def step (j : Journal) : Op → Journal
  | .append entry now => ⟨j.wal.append codec entry now,j.log ++ [j.wal.stamp entry now]⟩
  | .truncate afterIndex => ⟨(j.wal.truncate codec afterIndex).2,j.kept afterIndex⟩
  | .readAll => j

def Greatest (entries : List Entry) (index : Int) : Prop :=
  entries = [] ∧ index = 0 ∨ (∃ e ∈ entries, e.index = index) ∧ ∀ e ∈ entries, e.index ≤ index

/-- A truncation leaves the entries up to its index to be read, with the greatest of
their indices as the last one, and an entry that is appended gets the index that follows
the last one. -/
def Exact (j : Journal) : Op → Prop
  | .append entry now =>
    (j.wal.stamp entry now).index = j.wal.lastIndex + 1 ∧
      (j.wal.append codec entry now).lastIndex = j.wal.lastIndex + 1
  | .truncate afterIndex =>
    (j.wal.truncate codec afterIndex).2.readAll codec = (j.kept afterIndex,none) ∧
      Greatest (j.kept afterIndex) (j.wal.truncate codec afterIndex).2.lastIndex
  | .readAll => True

/-- The entries that a truncation is to keep have left the buffer, the last newline
aside. Entries are appended while the indices last and fit into the buffer of the
scanner. -/
def Flushed (j : Journal) : Op → Prop
  | .append entry now =>
    j.wal.index < 2 ^ 63 - 1 ∧ (codec.marshal (j.wal.stamp entry now)).length < maxScanTokenSize
  | .truncate afterIndex => (encode codec (j.kept afterIndex)).length ≤ j.wal.writer.file.length + 1
  | .readAll => True

instance (j : Journal) : ∀ op, Decidable (j.Flushed codec op)
  | .append .. => inferInstanceAs (Decidable (_ ∧ _))
  | .truncate _ => inferInstanceAs (Decidable (_ ≤ _))
  | .readAll => .isTrue trivial

/-- The log is what the file and the buffer hold together. -/
structure Sound (j : Journal) : Prop where
  content : j.wal.writer.content = encode codec j.log
  fits : ∀ e ∈ j.log, (codec.marshal e).length < maxScanTokenSize
  ordered : j.log.Pairwise (fun e f => e.index < f.index)
  greatest : Greatest j.log j.wal.index
  positive : ∀ e ∈ j.log, 0 < e.index

variable {codec} {j : Journal}

lemma append_writer (codec : Codec) (w : WAL) (entry : Entry) (now : Time) :
    (w.append codec entry now).writer.content = w.writer.content ++ encode codec [w.stamp entry now] ∧
      (w.append codec entry now).index = (w.stamp entry now).index := by
  rw [WAL.append]
  split_ifs
  · exact ⟨(Writer.flush_content _).trans (put_content _ _),rfl⟩
  · exact ⟨put_content _ _,rfl⟩

lemma Sound.nonneg (sound : j.Sound codec) : 0 ≤ j.wal.index := by
  rcases sound.greatest with ⟨-,zero⟩ | ⟨⟨e,member,same⟩,-⟩
  · exact Int.le_of_eq zero.symm
  · rw [← same]
    exact Int.le_of_lt (sound.positive e member)

lemma Sound.stamp_index (sound : j.Sound codec) (entry : Entry) (now : Time) (small : j.wal.index < 2 ^ 63 - 1) :
    (j.wal.stamp entry now).index = j.wal.index + 1 := by
  apply wrap_of_lt
  · have positive := sound.nonneg
    omega
  · omega

lemma Sound.below (sound : j.Sound codec) (e : Entry) (member : e ∈ j.log) : e.index ≤ j.wal.index := by
  rcases sound.greatest with ⟨empty,-⟩ | ⟨-,above⟩
  · rw [empty] at member
    cases member
  · exact above e member

lemma sound_append (sound : j.Sound codec) {entry : Entry} {now : Time} (fits : j.Flushed codec (.append entry now)) :
    (j.step codec (.append entry now)).Sound codec := by
  obtain ⟨content,index⟩ := append_writer codec j.wal entry now
  have next := sound.stamp_index entry now fits.1
  have above : ∀ e ∈ j.log,e.index < (j.wal.stamp entry now).index := by
    intro e member
    rw [next]
    exact Int.lt_add_one_iff.mpr (sound.below e member)
  refine ⟨?_,?_,?_,?_,?_⟩
  · exact content.trans ((congrArg (· ++ _) sound.content).trans (encode_append _ _).symm)
  · intro e member
    rcases mem_append.mp member with old | new
    · exact sound.fits e old
    · rw [mem_singleton.mp new]
      exact fits.2
  · apply pairwise_append.mpr
    refine ⟨sound.ordered,pairwise_singleton _ _,?_⟩
    intro e member f new
    rw [mem_singleton.mp new]
    exact above e member
  · refine .inr ⟨⟨_,mem_append_right _ (mem_singleton.mpr rfl),index.symm⟩,?_⟩
    intro e member
    rw [step,index]
    rcases mem_append.mp member with old | new
    · exact Int.le_of_lt (above e old)
    · exact Int.le_of_eq (congrArg Entry.index (mem_singleton.mp new))
  · intro e member
    rcases mem_append.mp member with old | new
    · exact sound.positive e old
    · rw [mem_singleton.mp new,next]
      exact Int.lt_add_one_iff.mpr sound.nonneg

variable {log : List Entry} {afterIndex : Int}

lemma kept_first (ordered : log.Pairwise (fun e f => e.index < f.index)) (afterIndex : Int) :
    ∃ rest,log = log.filter (fun e => e.index ≤ afterIndex) ++ rest ∧
      rest.filter (fun e => e.index ≤ afterIndex) = [] := by
  induction log with
  | nil => exact ⟨[],rfl,rfl⟩
  | cons e log ih =>
    obtain ⟨later,ordered⟩ := pairwise_cons.mp ordered
    by_cases keeps : e.index ≤ afterIndex
    · obtain ⟨rest,parts,beyond⟩ := ih ordered
      refine ⟨rest,?_,beyond⟩
      rw [filter_cons_of_pos (by simpa using keeps),cons_append,← parts]
    · have none : (e :: log).filter (fun e => e.index ≤ afterIndex) = [] := by
        rw [filter_eq_nil_iff]
        intro f member
        rw [decide_eq_true_eq]
        rcases mem_cons.mp member with rfl | after
        · exact keeps
        · have above := later f after
          omega
      exact ⟨e :: log,by rw [none,nil_append],none⟩

lemma Sound.read_kept (sound : j.Sound codec)
    (flushed : (encode codec (j.kept afterIndex)).length ≤ j.wal.writer.file.length + 1) :
    ∃ entries,j.wal.readAll codec = (entries,none) ∧
      entries.filter (fun e => e.index ≤ afterIndex) = j.kept afterIndex := by
  have file : j.wal.writer.file = (encode codec j.log).take j.wal.writer.file.length := by
    rw [← sound.content,Writer.content,take_left']
    rfl
  refine ⟨contained codec j.log j.wal.writer.file.length,?_,?_⟩
  · rw [WAL.readAll,file,decode_take sound.fits,← file]
  · obtain ⟨rest,parts,beyond⟩ := kept_first sound.ordered afterIndex
    -- what is read goes on after the kept entries with some that are not
    have early : j.kept afterIndex <+: contained codec j.log j.wal.writer.file.length := by
      rw [parts]
      exact le_contained flushed
    obtain ⟨more,read⟩ := early
    have others : more <+: rest := by
      have within : j.kept afterIndex ++ more <+: j.kept afterIndex ++ rest := by
        rw [read]
        have all : j.log <+: j.kept afterIndex ++ rest := parts ▸ prefix_rfl
        exact ( take_prefix _ _).trans all
      exact (prefix_append_right_inj _).mp within
    have none : more.filter (fun e => e.index ≤ afterIndex) = [] := by
      rw [← prefix_nil,← beyond]
      exact others.filter _
    rw [← read,filter_append,none,append_nil,kept,filter_filter]
    simp only [Bool.and_self]

lemma greatest_kept (ordered : log.Pairwise (fun e f => e.index < f.index)) :
    Greatest log (log.foldl (fun _ e => e.index) 0) := by
  rcases eq_nil_or_concat' log with rfl | ⟨front,last,rfl⟩
  · exact .inl ⟨rfl,rfl⟩
  · rw [foldl_concat]
    refine .inr ⟨⟨last,mem_append_right _ (mem_singleton.mpr rfl),rfl⟩,?_⟩
    intro e member
    rcases mem_append.mp member with before | itself
    · exact Int.le_of_lt ((pairwise_append.mp ordered).2.2 e before last (mem_singleton.mpr rfl))
    · exact Int.le_of_eq (congrArg Entry.index (mem_singleton.mp itself))

lemma truncate_kept (sound : j.Sound codec) (flushed : j.Flushed codec (.truncate afterIndex)) :
    (j.wal.truncate codec afterIndex).2.writer = ⟨encode codec (j.kept afterIndex),[]⟩ ∧
      (j.wal.truncate codec afterIndex).2.index = (j.kept afterIndex).foldl (fun _ e => e.index) 0 := by
  obtain ⟨entries,read,keep⟩ := sound.read_kept flushed
  rw [WAL.truncate,read]
  dsimp only
  rw [keep]
  have content : ((j.kept afterIndex).foldl (WAL.put codec) {}).content = [] ++ encode codec (j.kept afterIndex) :=
    puts_content _ _
  exact ⟨congrArg (fun file => Writer.mk file []) content,rfl⟩

lemma Sound.kept_ordered (sound : j.Sound codec) (afterIndex : Int) :
    (j.kept afterIndex).Pairwise (fun e f => e.index < f.index) := sound.ordered.filter _

lemma sound_truncate (sound : j.Sound codec) (flushed : j.Flushed codec (.truncate afterIndex)) :
    (j.step codec (.truncate afterIndex)).Sound codec := by
  obtain ⟨writer,index⟩ := truncate_kept sound flushed
  have within : ∀ e ∈ j.kept afterIndex,e ∈ j.log := fun e member => mem_of_mem_filter member
  refine ⟨?_,?_,sound.kept_ordered afterIndex,?_,?_⟩
  · rw [step,writer]
    exact append_nil _
  · intro e member
    exact sound.fits e (within e member)
  · rw [step,index]
    exact greatest_kept (sound.kept_ordered afterIndex)
  · intro e member
    exact sound.positive e (within e member)

lemma exact_truncate (sound : j.Sound codec) (flushed : j.Flushed codec (.truncate afterIndex)) :
    j.Exact codec (.truncate afterIndex) := by
  obtain ⟨writer,index⟩ := truncate_kept sound flushed
  constructor
  · rw [WAL.readAll,writer]
    apply decode_encode
    intro e member
    exact sound.fits e (mem_of_mem_filter member)
  · rw [WAL.lastIndex,index]
    exact greatest_kept (sound.kept_ordered afterIndex)

lemma sound_step (j : Journal) (op : Op) (sound : j.Sound codec) (flushed : j.Flushed codec op) :
    (j.step codec op).Sound codec := by
  cases op with
  | append entry now => exact sound_append sound flushed
  | truncate afterIndex => exact sound_truncate sound flushed
  | readAll => exact sound

lemma exact_step (j : Journal) (op : Op) (sound : j.Sound codec) (flushed : j.Flushed codec op) :
    j.Exact codec op := by
  cases op with
  | append entry now =>
    have next := sound.stamp_index entry now flushed.1
    exact ⟨next,(append_writer codec j.wal entry now).2.trans next⟩
  | truncate afterIndex => exact exact_truncate sound flushed
  | readAll => trivial

end Journal

variable {codec}

def newJournal (syncEvery : Int) : Journal := { wal := { syncEvery } }

/-- In every run on a new log, however often it syncs, in which each truncation finds
the entries that it is to keep flushed, all truncations are exact. -/
theorem truncate_keeps_initial (codec : Codec) (syncEvery : Int) (ops : List Op)
    (flushed : Along (Journal.step codec) (Journal.Flushed codec) (newJournal syncEvery) ops) :
    Along (Journal.step codec) (Journal.Exact codec) (newJournal syncEvery) ops := by
  apply flushed.weaken (P := Journal.Sound codec) Journal.sound_step Journal.exact_step
  refine ⟨rfl,?_,List.Pairwise.nil,.inl ⟨rfl,rfl⟩,?_⟩
  all_goals
    intro e member
    cases member

private def sample : Entry := ⟨0,0,"t",[],0⟩

theorem truncate_synced : let ops : List Op := [.append sample 0,.append sample 0,.truncate 1]
    Along (Journal.step textCodec) (Journal.Exact textCodec) (newJournal 1) ops ∧
      (ops.foldl (Journal.step textCodec) (newJournal 1)).log.length = 1 :=
  ⟨truncate_keeps_initial textCodec 1 _ (by decide +kernel),by decide +kernel⟩

/-- An entry that is still in the buffer is lost. -/
theorem truncate_loses_buffered : ¬ Along (Journal.step textCodec) (Journal.Exact textCodec) (newJournal 10)
    [.append sample 0,.truncate 5] := by
  rintro ⟨-,⟨read,-⟩,-⟩
  have lengths := congrArg (fun result => result.1.length) read
  exact absurd lengths (by decide)

end Tempest.Wal
