import Tempest.WalTruncate

/-! Recovery of the write-ahead log after a crash that leaves a part of the file. The
scanner skips a torn last line, but the line stays in the file, and the next entry is
written right behind it. -/
namespace Tempest.Wal
open Interaction Lines List

variable (codec : Codec)

def appendAll (w : WAL) (entries : List (Entry × Time)) : Journal :=
  entries.foldl (fun j entry => j.step codec (.append entry.1 entry.2)) ⟨w,[]⟩

/-- A log is opened on what is left of the file, entries are appended, and the log is
closed and opened again. Then all entries of which the text was left are read, and
after them those that were appended, in the order of their indices. -/
def Recovers (log : List Entry) (surviving : List UInt8) (syncEvery reopened : Int) (more : List (Entry × Time)) : Prop :=
  ∃ w, WAL.openFile codec surviving syncEvery = .ok w ∧
    let after := appendAll codec w more
    let expected := contained codec log surviving.length ++ after.log
    (∃ last, WAL.openFile codec after.wal.close reopened = .ok last ∧ last.readAll codec = (expected,none)) ∧
      expected.Pairwise (fun e f => e.index < f.index)

/-- The cut is at the end of a line, or nothing is appended behind it. The lines fit into
the buffer of the scanner, and the indices last. -/
structure CleanCut (log : List Entry) (surviving : List UInt8) (syncEvery : Int) (more : List (Entry × Time)) : Prop where
  ends : more = [] ∨ surviving = [] ∨ surviving.getLast? = some newline
  scannable : Scannable surviving
  fits : ∀ w, WAL.openFile codec surviving syncEvery = .ok w →
    ∀ e ∈ (appendAll codec w more).log, (codec.marshal e).length < maxScanTokenSize
  counts : (contained codec log surviving.length).length + more.length < 2 ^ 63

def numbers (start : Int) (n : Nat) : List Int := (List.range n).map (fun i : Nat => wrap (start + i + 1))

/-- The entries of a journal have got the indices that follow the given one. -/
structure Numbered (start : Int) (j : Journal) : Prop where
  indices : j.log.map Entry.index = numbers start j.log.length
  last : j.wal.index = wrap (start + j.log.length)

variable {codec}

lemma numbers_succ (start : Int) (n : Nat) : numbers start (n + 1) = numbers start n ++ [wrap (start + n + 1)] := by
  rw [numbers,range_succ,map_append]
  rfl

lemma numbers_add (start : Int) (m n : Nat) : numbers start (m + n) = numbers start m ++ numbers (start + m) n := by
  induction n with
  | zero => exact (append_nil _).symm
  | succ n ih =>
    rw [← Nat.add_assoc,numbers_succ,ih,numbers_succ,append_assoc,Int.natCast_add]
    simp only [Int.add_assoc]

variable {n : Nat} {start : Int} {w : WAL} {text : List UInt8} {kept : List Entry}

lemma numbers_take (start : Int) {m : Nat} (less : m ≤ n) : (numbers start n).take m = numbers start m := by
  obtain ⟨k,rfl⟩ := Nat.exists_eq_add_of_le less
  rw [numbers_add]
  simp [numbers]

lemma numbers_small (small : n < 2 ^ 63) : numbers 0 n = (List.range n).map (fun i : Nat => (i : Int) + 1) := by
  apply map_congr_left
  intro i member
  have less := mem_range.mp member
  rw [Int.zero_add]
  apply wrap_of_lt <;> omega

lemma numbers_ordered : (numbers 0 n).Pairwise (· < ·) ↔ n < 2 ^ 63 := by
  constructor
  · intro ordered
    by_contra large
    obtain ⟨last,top⟩ : ∃ last,last + 2 = 2 ^ 63 := ⟨9223372036854775806,by decide⟩
    have length : (numbers 0 n).length = n := by simp [numbers]
    have falls := pairwise_iff_getElem.mp ordered last (last + 1) (by omega) (by omega) (Nat.lt_succ_self last)
    have before : (0 : Int) + last + 1 = 2 ^ 63 - 1 := by omega
    have after : (0 : Int) + (last + 1 : Nat) + 1 = 2 ^ 63 := by omega
    simp only [numbers,getElem_map,getElem_range] at falls
    rw [before,after] at falls
    exact absurd falls (by decide)
  · intro small
    rw [numbers_small small,pairwise_map]
    apply (pairwise_lt_range (n := n)).imp
    intro i j less
    omega

lemma numbered_step {j : Journal} (numbered : Numbered start j) (entry : Entry) (now : Time) :
    Numbered start (j.step codec (.append entry now)) := by
  have next : (j.wal.stamp entry now).index = wrap (start + j.log.length + 1) := by
    rw [WAL.stamp,numbered.last,wrap,wrap,Int.bmod_add_bmod]
    rfl
  have length : (j.step codec (.append entry now)).log.length = j.log.length + 1 := length_append
  constructor
  · rw [length,numbers_succ,← numbered.indices,← next]
    exact map_append
  · rw [length,Int.natCast_succ,← Int.add_assoc,← next]
    exact (Journal.append_writer codec j.wal entry now).2

lemma numbered_appendAll (index : w.index = wrap start) (entries : List (Entry × Time)) :
    Numbered start (appendAll codec w entries) := by
  apply List.foldlRecOn
  · refine ⟨rfl,?_⟩
    rw [index]
    simp
  · intro j numbered entry _
    exact numbered_step numbered entry.1 entry.2

lemma appendAll_content (w : WAL) (entries : List (Entry × Time)) :
    (appendAll codec w entries).wal.writer.content =
      w.writer.content ++ encode codec (appendAll codec w entries).log := by
  apply List.foldlRecOn (motive := fun j : Journal => j.wal.writer.content = w.writer.content ++ encode codec j.log)
  · exact (append_nil _).symm
  · intro j content entry _
    rw [Journal.step,(Journal.append_writer codec j.wal entry.1 entry.2).1,content,append_assoc,← encode_append]

lemma appendAll_length (w : WAL) (entries : List (Entry × Time)) :
    (appendAll codec w entries).log.length = entries.length := by
  have grows : ∀ (j : Journal),(entries.foldl (fun j entry => j.step codec (.append entry.1 entry.2)) j).log.length =
      j.log.length + entries.length := by
    induction entries with
    | nil =>
      intro j
      rfl
    | cons entry rest ih =>
      intro j
      rw [foldl_cons,ih]
      simp [Journal.step]
      omega
  exact (grows ⟨w,[]⟩).trans (Nat.zero_add _)

lemma appendAll_nil {entries : List (Entry × Time)} : (appendAll codec w entries).log = [] ↔ entries = [] := by
  rw [← length_eq_zero_iff,appendAll_length,length_eq_zero_iff]

lemma replay_numbered {entries : List Entry} (small : n < 2 ^ 63)
    (indices : entries.map Entry.index = numbers 0 n) : WAL.replay entries = n := by
  have folded : WAL.replay entries = (entries.map Entry.index).foldl (fun m i => if m < i then i else m) 0 := by
    rw [foldl_map]
    rfl
  rw [folded,indices,numbers_small small]
  clear small indices folded
  induction n with
  | zero => rfl
  | succ n ih =>
    rw [range_succ,map_append,foldl_append]
    simp only [map_cons,map_nil,foldl_cons,foldl_nil]
    rw [if_pos (by omega),Int.natCast_succ]

lemma open_ok {syncEvery : Int} (opened : WAL.openFile codec text syncEvery = .ok w) :
    Scannable text ∧ w.writer = ⟨text,[]⟩ ∧ w.index = WAL.replay (parse codec (split newline text)) := by
  by_cases fits : Scannable text
  · rw [WAL.openFile,decode_scannable fits] at opened
    cases opened
    exact ⟨fits,rfl,rfl⟩
  · have fails : (WAL.decode codec text).2 = some .tooLong := decode_fails fits
    rw [WAL.openFile] at opened
    rcases decoded : WAL.decode codec text with ⟨entries,err⟩
    rw [decoded] at opened fails
    cases fails
    cases opened

lemma open_scannable (codec : Codec) (syncEvery : Int) (fits : Scannable text) :
    ∃ w,WAL.openFile codec text syncEvery = .ok w := by
  rw [WAL.openFile,decode_scannable fits]
  exact ⟨_,rfl⟩

section

variable {log : List Entry} {surviving : List UInt8}

lemma contained_eq_parse (cut : surviving <+: encode codec log) :
    contained codec log surviving.length = parse codec (split newline surviving) := by
  rw [← parse_take,← prefix_iff_eq_take.mp cut]

lemma cut_cases (cut : surviving <+: encode codec log) :
    ∃ kept part,surviving = encode codec kept ++ part ∧ (part = [] ∨ ∃ e,part <+: codec.marshal e) := by
  obtain ⟨n,part,text,-,left⟩ := take_join newline (log.map codec.marshal) surviving.length
  refine ⟨log.take n,part,?_,?_⟩
  · rw [encode,map_take,← text]
    exact prefix_iff_eq_take.mp cut
  · rcases left with none | ⟨line,member,early⟩
    · exact .inl none
    · obtain ⟨e,-,rfl⟩ := mem_map.mp member
      exact .inr ⟨e,early⟩

lemma split_encode (kept : List Entry) (rest : List UInt8) :
    split newline (encode codec kept ++ rest) = kept.map codec.marshal ++ split newline rest :=
  split_join (clean_lines codec kept) rest

lemma parse_encode (kept : List Entry) (rest : List UInt8) :
    parse codec (split newline (encode codec kept ++ rest)) = kept ++ parse codec (split newline rest) := by
  rw [split_encode,parse_append,parse_marshal]

lemma parse_whole (kept : List Entry) : parse codec (split newline (encode codec kept)) = kept := by
  have parts : parse codec (split newline (encode codec kept ++ [])) = kept ++ [] := parse_encode kept []
  rw [append_nil,append_nil] at parts
  exact parts

lemma scannable_encode (kept : List Entry) :
    Scannable (encode codec kept) ↔ ∀ e ∈ kept,(codec.marshal e).length < maxScanTokenSize := by
  have parts : split newline (encode codec kept ++ []) = kept.map codec.marshal ++ [] := split_encode kept []
  rw [append_nil,append_nil] at parts
  rw [Scannable,parts,forall_mem_map]

lemma encode_cons (e : Entry) (rest : List Entry) :
    encode codec (e :: rest) = codec.marshal e ++ newline :: encode codec rest := join_cons _ _ _

lemma parse_glued {rest : List Entry} {part : List UInt8} {e next : Entry} (early : part <+: codec.marshal e)
    (proper : part ≠ []) :
    parse codec (split newline (encode codec kept ++ part ++ encode codec (next :: rest))) = kept ++ rest := by
  have clean : newline ∉ part ++ codec.marshal next := by
    rw [mem_append,not_or]
    exact ⟨fun member => codec.clean e (early.subset member),codec.clean next⟩
  have glued : part ++ encode codec (next :: rest) = part ++ codec.marshal next ++ newline :: encode codec rest := by
    rw [encode_cons,append_assoc]
  have lost : parse codec [part ++ codec.marshal next] = [] := by
    simp [parse,unmarshal_glued early proper]
  rw [append_assoc,parse_encode,glued,split_line clean,← singleton_append,parse_append,lost,parse_whole,
    nil_append]

lemma ends_encode (kept : List Entry) : encode codec kept = [] ∨ (encode codec kept).getLast? = some newline := by
  rcases eq_nil_or_concat' kept with rfl | ⟨front,e,rfl⟩
  · exact .inl rfl
  · right
    rw [encode_append,encode_cons,getLast?_append_of_ne_nil _ (append_ne_nil_of_right_ne_nil _ (cons_ne_nil _ _))]
    exact getLast?_concat

lemma ends_iff (cut : surviving <+: encode codec log) :
    (surviving = [] ∨ surviving.getLast? = some newline) ↔ ∃ kept,surviving = encode codec kept := by
  constructor
  · intro ends
    obtain ⟨kept,part,rfl,left⟩ := cut_cases cut
    refine ⟨kept,?_⟩
    rcases left with rfl | ⟨e,early⟩
    · exact append_nil _
    · rcases ends with empty | ending
      · rw [(append_eq_nil_iff.mp empty).2,append_nil]
      · by_cases proper : part = []
        · rw [proper,append_nil]
        · rw [getLast?_append_of_ne_nil _ proper] at ending
          exact absurd (early.subset (mem_of_getLast? ending)) (codec.clean e)
  · rintro ⟨kept,rfl⟩
    exact ends_encode kept

lemma contained_encode (cut : encode codec kept <+: encode codec log) :
    contained codec log (encode codec kept).length = kept := by
  rw [contained_eq_parse cut,parse_whole]

variable {new : List Entry}

lemma ends_of_parse (cut : surviving <+: encode codec log)
    (read : parse codec (split newline (surviving ++ encode codec new)) = contained codec log surviving.length ++ new) :
    new = [] ∨ surviving = [] ∨ surviving.getLast? = some newline := by
  cases new with
  | nil => exact .inl rfl
  | cons next rest =>
    right
    rw [ends_iff cut]
    obtain ⟨kept,part,text,left⟩ := cut_cases cut
    by_cases proper : part = []
    · exact ⟨kept,by rw [text,proper,append_nil]⟩
    · obtain ⟨e,early⟩ := left.resolve_left proper
      rw [contained_eq_parse cut,text,parse_glued early proper,parse_encode] at read
      have lengths := congrArg List.length read
      simp only [length_append,length_cons] at lengths
      omega

lemma readable_iff (cut : surviving <+: encode codec log) (fits : Scannable surviving) :
    (Scannable (surviving ++ encode codec new) ∧
      parse codec (split newline (surviving ++ encode codec new)) = contained codec log surviving.length ++ new) ↔
    (new = [] ∨ surviving = [] ∨ surviving.getLast? = some newline) ∧
      ∀ e ∈ new,(codec.marshal e).length < maxScanTokenSize := by
  constructor
  · rintro ⟨scannable,read⟩
    have ends := ends_of_parse cut read
    refine ⟨ends,?_⟩
    intro e member
    rcases ends with rfl | boundary
    · cases member
    · obtain ⟨kept,rfl⟩ := (ends_iff cut).mp boundary
      rw [← encode_append,scannable_encode] at scannable
      exact scannable e (mem_append_right _ member)
  · rintro ⟨ends,small⟩
    rcases ends with rfl | boundary
    · rw [contained_eq_parse cut]
      simpa [encode] using fits
    · obtain ⟨kept,rfl⟩ := (ends_iff cut).mp boundary
      rw [scannable_encode] at fits
      rw [← encode_append,scannable_encode,parse_whole,contained_encode cut]
      exact ⟨forall_mem_append.mpr ⟨fits,small⟩,rfl⟩

lemma numbers_of_prefix (early : kept <+: log) (indices : log.map Entry.index = numbers 0 log.length) :
    kept.map Entry.index = numbers 0 kept.length := by
  have shorter := numbers_take 0 early.length_le
  rw [← indices,← map_take,← prefix_iff_eq_take.mp early] at shorter
  exact shorter

lemma contained_numbers (codec : Codec) (indices : log.map Entry.index = numbers 0 log.length) (size : Nat) :
    (contained codec log size).map Entry.index = numbers 0 (contained codec log size).length :=
  numbers_of_prefix ( take_prefix _ _) indices

lemma close_appendAll (writer : w.writer = ⟨surviving,[]⟩) (more : List (Entry × Time)) :
    (appendAll codec w more).wal.close = surviving ++ encode codec (appendAll codec w more).log := by
  rw [← append_nil surviving]
  apply (appendAll_content w more).trans
  rw [writer]
  rfl

end

lemma numbers_go_on (indices : kept.map Entry.index = numbers 0 kept.length)
    (small : kept.length < 2 ^ 63) (index : w.index = WAL.replay kept) (more : List (Entry × Time)) :
    (kept ++ (appendAll codec w more).log).map Entry.index = numbers 0 (kept.length + more.length) := by
  have start : w.index = wrap kept.length := by
    rw [index,replay_numbered small indices,wrap_of_lt] <;> omega
  rw [map_append,indices,(numbered_appendAll start more).indices,appendAll_length,numbers_add,Int.zero_add]

lemma ordered_iff (indices : kept.map Entry.index = numbers 0 kept.length)
    (index : w.index = WAL.replay kept) (more : List (Entry × Time)) :
    (kept ++ (appendAll codec w more).log).Pairwise (fun e f => e.index < f.index) ↔
      kept.length + more.length < 2 ^ 63 := by
  rw [← pairwise_map (f := Entry.index) (R := (· < ·))]
  constructor
  · intro ordered
    have first : (kept.map Entry.index).Pairwise (· < ·) := by
      rw [map_append] at ordered
      exact (pairwise_append.mp ordered).1
    rw [indices,numbers_ordered] at first
    rw [numbers_go_on indices first index,numbers_ordered] at ordered
    exact ordered
  · intro small
    rw [numbers_go_on indices (by omega) index,numbers_ordered]
    exact small

lemma reopen_iff {file : List UInt8} {expected : List Entry} (syncEvery : Int) :
    (∃ last,WAL.openFile codec file syncEvery = .ok last ∧ last.readAll codec = (expected,none)) ↔
      Scannable file ∧ parse codec (split newline file) = expected := by
  constructor
  · rintro ⟨last,opened,read⟩
    obtain ⟨fits,writer,-⟩ := open_ok opened
    rw [WAL.readAll,writer,decode_scannable fits] at read
    exact ⟨fits,congrArg Prod.fst read⟩
  · rintro ⟨fits,rfl⟩
    obtain ⟨last,opened⟩ := open_scannable codec syncEvery fits
    refine ⟨last,opened,?_⟩
    rw [WAL.readAll,(open_ok opened).2.1,decode_scannable fits]

lemma written_log (codec : Codec) (syncEvery : Int) (entries : List (Entry × Time)) :
    let before := appendAll codec { syncEvery } entries
    before.wal.writer.file <+: encode codec before.log ∧ before.log.map Entry.index = numbers 0 before.log.length := by
  intro before
  constructor
  · have content : before.wal.writer.content = [] ++ encode codec before.log := appendAll_content _ entries
    rw [nil_append] at content
    rw [← content]
    exact prefix_append _ _
  · have numbered : Numbered 0 before := numbered_appendAll rfl entries
    exact numbered.indices

lemma Recovers.ends {log : List Entry} {surviving : List UInt8} {second third : Int} {more : List (Entry × Time)}
    (cut : surviving <+: encode codec log) (recovers : Recovers codec log surviving second third more) :
    more = [] ∨ surviving = [] ∨ surviving.getLast? = some newline := by
  obtain ⟨w,opened,reads,-⟩ := recovers
  rw [reopen_iff,close_appendAll (open_ok opened).2.1] at reads
  have ends := ends_of_parse cut reads.2
  rw [appendAll_nil] at ends
  exact ends

/-- Whatever was appended to a new log, whatever part of the file a crash leaves, and
whatever is appended to it after it was opened again, the log recovers exactly if the
cut is clean. -/
theorem recovers_iff_clean (codec : Codec) (first second third : Int) (entries more : List (Entry × Time))
    (surviving : List UInt8)
    (left : surviving <+: (appendAll codec { syncEvery := first } entries).wal.writer.file) :
    Recovers codec (appendAll codec { syncEvery := first } entries).log surviving second third more ↔
      CleanCut codec (appendAll codec { syncEvery := first } entries).log surviving second more := by
  obtain ⟨file,indices⟩ := written_log codec first entries
  have cut := left.trans file
  have kept := contained_numbers codec indices surviving.length
  constructor
  · rintro ⟨w,opened,reads,ordered⟩
    obtain ⟨fits,writer,index⟩ := open_ok opened
    rw [← contained_eq_parse cut] at index
    rw [reopen_iff,close_appendAll writer,readable_iff cut fits,appendAll_nil] at reads
    refine ⟨reads.1,fits,?_,(ordered_iff kept index more).mp ordered⟩
    intro other same
    cases opened.symm.trans same
    exact reads.2
  · intro clean
    obtain ⟨w,opened⟩ := open_scannable codec second clean.scannable
    obtain ⟨fits,writer,index⟩ := open_ok opened
    rw [← contained_eq_parse cut] at index
    refine ⟨w,opened,?_,(ordered_iff kept index more).mpr clean.counts⟩
    rw [reopen_iff,close_appendAll writer,readable_iff cut fits,appendAll_nil]
    exact ⟨clean.ends,clean.fits w opened⟩

private def small : Entry := ⟨0,0,"t",[],0⟩

/-- A crash after the first of two lines. -/
theorem recovers_after_line : let before := appendAll textCodec { syncEvery := 1 } [(small,0),(small,0)]
    let surviving := encode textCodec (before.log.take 1)
    surviving <+: before.wal.writer.file ∧ Recovers textCodec before.log surviving 1 1 [(small,0)] := by
  intro before surviving
  have left : surviving <+: before.wal.writer.file := by decide +kernel
  refine ⟨left,(recovers_iff_clean textCodec 1 1 1 _ _ surviving left).mpr ⟨?_,?_,?_,?_⟩⟩
  · exact .inr (ends_encode _)
  · rw [scannable_encode]
    decide +kernel
  · intro w opened e member
    obtain ⟨-,-,index⟩ := open_ok opened
    have one : WAL.replay (before.log.take 1) = 1 := by decide +kernel
    have only := mem_singleton.mp member
    rw [only,WAL.stamp,index]
    decide +kernel
  · decide +kernel

private def long : Entry := { small with type := String.ofList (List.replicate 5000 'a') }

lemma str_length_le (e : Entry) : (str e.type).length ≤ (marshal e).length := by
  simp only [marshal,text,body,firstFields,join,length_map,length_append,length_cons,flatMap_cons]
  omega

lemma long_length (w : WAL) (now : Time) : defaultBufSize < (textCodec.marshal (w.stamp long now)).length := by
  apply Nat.lt_of_lt_of_le _ (str_length_le (w.stamp long now))
  have plain : (String.ofList (List.replicate 5000 'a')).toList.all Char.isAlphanum = true := by
    rw [String.toList_ofList,all_eq_true]
    intro c member
    rw [eq_of_mem_replicate member]
    decide
  have quoted : str (w.stamp long now).type = '"' :: (String.ofList (List.replicate 5000 'a')).toList ++ ['"'] := by
    exact if_pos plain
  rw [quoted,String.toList_ofList,length_append,length_cons,length_replicate]
  decide

lemma append_long (codec : Codec) (w : WAL) (entry : Entry) (now : Time) (unsynced : w.syncEvery = 0) (empty : w.writer = {})
    (long : defaultBufSize < (codec.marshal (w.stamp entry now)).length) :
    (w.append codec entry now).writer = ⟨codec.marshal (w.stamp entry now),[newline]⟩ ∧
      (w.append codec entry now).synced = w.synced := by
  have beyond : ¬ (codec.marshal (w.stamp entry now)).length ≤ ({} : Writer).available := Nat.not_le.mpr long
  have written : ({} : Writer).write (codec.marshal (w.stamp entry now)) = ⟨codec.marshal (w.stamp entry now),[]⟩ := by
    rw [Writer.write,if_neg beyond,Writer.writeEmpty,if_neg (Nat.not_le.mpr long)]
    rfl
  rw [WAL.append,if_neg (fun syncs => by rw [unsynced] at syncs; exact absurd syncs.1 (Int.lt_irrefl 0))]
  refine ⟨?_,rfl⟩
  rw [empty,WAL.put,written]
  rfl

/-- After one byte of a line was left, the next entry is lost. -/
theorem torn_line_swallows : let before := appendAll textCodec { syncEvery := 0 } [(long,0)]
    ([123]) <+: before.wal.writer.file ∧ before.wal.synced ≤ 1 ∧
      ¬ Recovers textCodec before.log [123] 0 0 [(small,0)] := by
  intro before
  have appended : before.wal = WAL.append textCodec { syncEvery := 0 } long 0 := rfl
  obtain ⟨writer,synced⟩ := append_long textCodec { syncEvery := 0 } long 0 rfl rfl (long_length { syncEvery := 0 } 0)
  rw [← appended] at writer synced
  have left : ([123]) <+: before.wal.writer.file := by
    rw [writer]
    dsimp only [textCodec]
    rw [marshal_eq]
    exact (prefix_cons_inj 123).mpr nil_prefix
  refine ⟨left,by rw [synced]; exact Nat.zero_le 1,?_⟩
  intro recovers
  rcases recovers.ends (left.trans (written_log textCodec 0 _).1) with none | empty | ending
  · cases none
  · cases empty
  · cases ending

end Tempest.Wal
