import Tempest.Lib.BinarySearch
import Tempest.Lib.Layers
import Mathlib.Data.List.Lex

/-! The store of `internal/compactor`: a table in memory, immutable tables behind it, and
their compaction. Strings are compared by their bytes. The instants of the entries and
the names of the tables are never read and are left out. -/
namespace Tempest.Compactor
open Association

abbrev Key := List (Fin 256)

abbrev Value := List (Fin 256)

inductive StoreError
  | storeClosed
  deriving DecidableEq

def StoreError.text : StoreError → String
  | .storeClosed => "compactor: store closed"

structure Entry where
  key : Key
  value : Value
  seq : UInt64
  isTombstone : Bool
  deriving DecidableEq

structure SnapshotTable where
  minKey : Key := []
  maxKey : Key := []
  entries : List Entry := []
  deriving DecidableEq

def newSnapshotTable (entries : List Entry) : SnapshotTable :=
  match entries.head?,entries.getLast? with
  | some first,some last => ⟨first.key,last.key,entries⟩
  | _,_ => {}

def SnapshotTable.get (s : SnapshotTable) (key : Key) : Option Entry :=
  if s.entries.length = 0 ∨ key < s.minKey ∨ s.maxKey < key then none
  else
    let idx := BinarySearch.search s.entries.length (fun i => (s.entries[i]?).any (fun e => key ≤ e.key))
    match s.entries[idx]? with
    | some e => if e.key = key then some e else none
    | none => none

/-- The order in which a map's entries are ranged over. -/
structure Ranging where
  order : List Entry → List Entry
  perm : ∀ entries, (order entries).Perm entries

def Ranging.inOrder : Ranging := ⟨id,fun _ => .refl _⟩

def sortedEntries (ranging : Ranging) (m : List (Key × Entry)) : List Entry :=
  (ranging.order (m.map Prod.snd)).insertionSort (fun a b => a.key ≤ b.key)

structure Store where
  seqCounter : UInt64 := 0
  flushThresh : Int
  memTable : List (Key × Entry) := []
  snapshots : List SnapshotTable := []
  closed : Bool := false

structure Config where
  flushThreshold : Int

def defaultConfig : Config := ⟨50⟩

def new (cfg : Config) : Store :=
  { flushThresh := if cfg.flushThreshold ≤ 0 then 50 else cfg.flushThreshold }

namespace Store

def flushLocked (ranging : Ranging) (s : Store) : Store :=
  if s.memTable.length = 0 then s
  else
    let snap := newSnapshotTable (sortedEntries ranging s.memTable)
    { s with snapshots := s.snapshots ++ [snap],memTable := [] }

/-- What `Put` and `Delete` share: the entry gets the next number, and a full table is
flushed. -/
def record (ranging : Ranging) (s : Store) (key : Key) (value : Value) (isTombstone : Bool) :
    Except StoreError UInt64 × Store :=
  if s.closed then (.error .storeClosed,s)
  else
    let seq := s.seqCounter + 1
    let s := { s with seqCounter := seq,memTable := put key ⟨key,value,seq,isTombstone⟩ s.memTable }
    (.ok seq,if s.flushThresh ≤ s.memTable.length then s.flushLocked ranging else s)

def put (ranging : Ranging) (s : Store) (key : Key) (val : Value) : Except StoreError UInt64 × Store :=
  s.record ranging key val false

def delete (ranging : Ranging) (s : Store) (key : Key) : Except StoreError UInt64 × Store :=
  s.record ranging key [] true

def flush (ranging : Ranging) (s : Store) : Except StoreError Unit × Store :=
  if s.closed then (.error .storeClosed,s) else (.ok (),s.flushLocked ranging)

end Store

def Entry.visible (e : Entry) : Option Value := if e.isTombstone then none else some e.value

def searchTables (key : Key) : List SnapshotTable → Option Value
  | [] => none
  | snap :: older =>
    match snap.get key with
    | some e => e.visible
    | none => searchTables key older

namespace Store

def get (s : Store) (key : Key) : Except StoreError (Option Value) :=
  if s.closed then .error .storeClosed
  else
    match find key s.memTable with
    | some e => .ok e.visible
    | none => .ok (searchTables key s.snapshots.reverse)

def keepLatest (latest : List (Key × Entry)) (e : Entry) : List (Key × Entry) :=
  match find e.key latest with
  | none => Association.put e.key e latest
  | some existing => if e.seq > existing.seq then Association.put e.key e latest else latest

def latestMap (snapshots : List SnapshotTable) : List (Key × Entry) :=
  snapshots.foldl (fun latest snap => snap.entries.foldl keepLatest latest) []

def liveEntries (ranging : Ranging) (latest : List (Key × Entry)) : List Entry :=
  ((ranging.order (latest.map Prod.snd)).filter (fun e => !e.isTombstone)).insertionSort (fun a b => a.key ≤ b.key)

def compact (flushing merging : Ranging) (s : Store) : Except StoreError Unit × Store :=
  if s.closed then (.error .storeClosed,s)
  else
    let s := s.flushLocked flushing
    match s.snapshots with
    | [] => (.ok (),s)
    | [snap] => (.ok (),{ s with snapshots := [newSnapshotTable (snap.entries.filter (fun e => !e.isTombstone))] })
    | snapshots => (.ok (),{ s with snapshots := [newSnapshotTable (liveEntries merging (latestMap snapshots))] })

def close (s : Store) : Store := { s with closed := true }

end Store

end Tempest.Compactor
