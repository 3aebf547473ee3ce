import Tempest.Compactor
import Tempest.Lib.Counter

/-! The store of `internal/compactor` as a plain map. What a key stands for is decided by
the first layer that has an entry for it; the layers are stamped, the newest first, as
long as the counter of the writes has not wrapped around. -/
open List
namespace Tempest.Compactor
open Association Function

def index (entries : List Entry) : List (Key × Entry) := entries.map (fun e => (e.key,e))

variable {entries : List Entry} {key : Key} {e : Entry} {i : Nat} {m : List (Key × Entry)}

lemma mem_index {k : Key} : (k,e) ∈ index entries ↔ e ∈ entries ∧ e.key = k := by
  simp only [index,mem_map,Prod.mk.injEq]
  constructor
  · rintro ⟨_,member,rfl,rfl⟩
    exact ⟨member,rfl⟩
  · rintro ⟨member,rfl⟩
    exact ⟨e,member,rfl,rfl⟩

lemma key_lt (sorted : Sorted (index entries)) {j : Nat} {a b : Entry} (first : entries[i]? = some a)
    (second : entries[j]? = some b) (less : i < j) : a.key < b.key := by
  obtain ⟨bound,rfl⟩ := List.getElem?_eq_some_iff.mp first
  obtain ⟨bound',rfl⟩ := List.getElem?_eq_some_iff.mp second
  rw [Sorted,index,pairwise_map] at sorted
  exact pairwise_iff_getElem.mp sorted i j bound bound' less

lemma key_le (sorted : Sorted (index entries)) {j : Nat} {a b : Entry} (first : entries[i]? = some a)
    (second : entries[j]? = some b) (less : i ≤ j) : a.key ≤ b.key := by
  rcases Nat.lt_or_eq_of_le less with before | rfl
  · exact le_of_lt (key_lt sorted first second before)
  · cases first.symm.trans second
    exact le_refl _

abbrev reaches (entries : List Entry) (key : Key) (i : Nat) : Bool := (entries[i]?).any (fun e => key ≤ e.key)

lemma reaches_iff : reaches entries key i = true ↔ ∃ e,entries[i]? = some e ∧ key ≤ e.key := by
  rw [reaches]
  cases entries[i]? <;> simp

lemma search_entries (sorted : Sorted (index entries)) (found : entries[i]? = some e) :
    BinarySearch.search entries.length (reaches entries e.key) = i := by
  have monotone : ∀ k l,k ≤ l → l < entries.length → reaches entries e.key k = true → reaches entries e.key l = true := by
    intro k l less inside passes
    obtain ⟨a,first,reached⟩ := reaches_iff.mp passes
    have second := getElem?_eq_getElem inside
    exact reaches_iff.mpr ⟨_,second,le_trans reached (key_le sorted first second less)⟩
  have around := BinarySearch.search_around monotone
  generalize BinarySearch.search entries.length (reaches entries e.key) = idx at around ⊢
  have here := reaches_iff.mpr ⟨e,found,le_refl _⟩
  rcases Nat.lt_trichotomy idx i with before | same | behind
  · have inside := before.trans (List.getElem?_eq_some_iff.mp found).choose
    obtain ⟨a,first,reached⟩ := reaches_iff.mp (around.behind idx (Nat.le_refl _) inside)
    exact absurd (key_lt sorted first found before) (not_lt.mpr reached)
  · exact same
  · exact absurd here (by rw [around.before i behind]; exact Bool.false_ne_true)

lemma newSnapshotTable_entries (entries : List Entry) : (newSnapshotTable entries).entries = entries := by
  cases entries with
  | nil => rfl
  | cons first rest => simp [newSnapshotTable,getLast?_cons]

lemma bounds (sorted : Sorted (index entries)) (found : entries[i]? = some e) :
    (newSnapshotTable entries).minKey ≤ e.key ∧ e.key ≤ (newSnapshotTable entries).maxKey := by
  have inside := (List.getElem?_eq_some_iff.mp found).choose
  have first : entries[0]? = some (entries[0]) := List.getElem?_eq_getElem (by omega)
  have last : entries[entries.length - 1]? = some (entries[entries.length - 1]) := getElem?_eq_getElem (by omega)
  have table : newSnapshotTable entries = ⟨(entries[0]).key,(entries[entries.length - 1]).key,entries⟩ := by
    rw [newSnapshotTable,head?_eq_getElem?,getLast?_eq_getElem?,first,last]
  rw [table]
  exact ⟨key_le sorted first found (Nat.zero_le _),key_le sorted found last (by omega)⟩

lemma get_newSnapshotTable (sorted : Sorted (index entries)) (key : Key) :
    (newSnapshotTable entries).get key = find key (index entries) := by
  cases found : find key (index entries) with
  | some e =>
    obtain ⟨member,rfl⟩ := mem_index.mp (mem_of_find found)
    obtain ⟨i,place⟩ := mem_iff_getElem?.mp member
    obtain ⟨least,greatest⟩ := bounds sorted place
    have inside := (List.getElem?_eq_some_iff.mp place).choose
    unfold SnapshotTable.get
    rw [newSnapshotTable_entries,if_neg]
    · dsimp only
      rw [search_entries sorted place,place]
      exact if_pos rfl
    · rintro (empty | low | high)
      · omega
      · exact absurd low (not_lt.mpr least)
      · exact absurd high (not_lt.mpr greatest)
  | none =>
    unfold SnapshotTable.get
    rw [newSnapshotTable_entries]
    split_ifs
    · rfl
    · dsimp only
      split
      · rename_i e place
        rw [if_neg]
        rintro rfl
        have member := mem_index.mpr ⟨mem_of_getElem? place,rfl⟩
        exact find_eq_none.mp found (mem_map.mpr ⟨_,member,rfl⟩)
      · rfl

lemma sort_entries (sorted : Sorted m) (keyed : ∀ entry ∈ m,entry.2.key = entry.1)
    {order : List Entry} (perm : order.Perm (m.map Prod.snd)) :
    order.insertionSort (fun a b => a.key ≤ b.key) = m.map Prod.snd := by
  have keys : (m.map Prod.snd).Pairwise (fun a b => a.key < b.key) := by
    rw [pairwise_map]
    apply List.Pairwise.imp_of_mem _ sorted
    intro a b first second less
    rwa [keyed a first,keyed b second]
  have total : Std.Total (fun a b : Entry => a.key ≤ b.key) := ⟨fun a b => le_total a.key b.key⟩
  have trans : IsTrans Entry (fun a b => a.key ≤ b.key) := ⟨fun _ _ _ => le_trans⟩
  have sorting := (perm_insertionSort (fun a b : Entry => a.key ≤ b.key) order).trans perm
  apply List.Perm.eq_of_pairwise _ (pairwise_insertionSort _ _) (keys.imp le_of_lt) sorting
  intro a b first second less more
  -- two entries of the map with one key are the same entry
  obtain ⟨⟨k,_⟩,inside,rfl⟩ := mem_map.mp (sorting.mem_iff.mp first)
  obtain ⟨⟨l,_⟩,inside',rfl⟩ := mem_map.mp second
  have same : k = l := (keyed _ inside).symm.trans ((le_antisymm less more).trans (keyed _ inside'))
  subst same
  exact Option.some.inj ((find_of_mem sorted inside).symm.trans (find_of_mem sorted inside'))

lemma index_values (keyed : ∀ entry ∈ m,entry.2.key = entry.1) : index (m.map Prod.snd) = m := by
  rw [index,map_map]
  apply map_congr_left (g := id) _ |>.trans (map_id m)
  rintro ⟨k,e⟩ member
  exact Prod.ext (keyed _ member) rfl

namespace Store

def layers (s : Store) : List (List (Key × Entry)) :=
  s.memTable :: s.snapshots.reverse.map (fun snap => index snap.entries)

def view (s : Store) (key : Key) : Option Value := (Layers.lookup key s.layers).bind Entry.visible

structure Layered (s : Store) : Prop where
  opened : s.closed = false
  keyed : ∀ entry ∈ s.memTable, entry.2.key = entry.1
  sorted : ∀ layer ∈ s.layers, Sorted layer
  built : ∀ snap ∈ s.snapshots, newSnapshotTable snap.entries = snap
  newest : Layers.Newest Entry.seq s.layers
  counted : ∀ layer ∈ s.layers, ∀ entry ∈ layer, entry.2.seq ≤ s.seqCounter

variable {s : Store}

lemma Layered.not_closed (layered : s.Layered) : ¬s.closed = true := by
  rw [layered.opened]
  exact Bool.false_ne_true

lemma searchTables_eq {tables : List SnapshotTable} (built : ∀ snap ∈ tables,newSnapshotTable snap.entries = snap)
    (sorted : ∀ snap ∈ tables,Sorted (index snap.entries)) :
    searchTables key tables = (Layers.lookup key (tables.map (fun snap => index snap.entries))).bind Entry.visible := by
  induction tables with
  | nil => rfl
  | cons snap older later =>
    have here : snap.get key = find key (index snap.entries) := by
      conv_lhs => rw [← built snap mem_cons_self]
      exact get_newSnapshotTable (sorted snap mem_cons_self) key
    rw [searchTables,here,map_cons,Layers.lookup,
      later (fun t member => built t (mem_cons_of_mem _ member)) (fun t member => sorted t (mem_cons_of_mem _ member))]
    cases find key (index snap.entries) <;> rfl

lemma get_eq (layered : s.Layered) (key : Key) : s.get key = .ok (s.view key) := by
  have tables : searchTables key s.snapshots.reverse =
      (Layers.lookup key (s.snapshots.reverse.map (fun snap => index snap.entries))).bind Entry.visible := by
    apply searchTables_eq
    · intro snap member
      exact layered.built snap (mem_reverse.mp member)
    · intro snap member
      exact layered.sorted _ (mem_cons_of_mem _ (mem_map.mpr ⟨snap,member,rfl⟩))
  rw [get,if_neg layered.not_closed,view,layers,Layers.lookup,tables]
  cases find key s.memTable <;> rfl

lemma layered_new (cfg : Config) : (new cfg).Layered := by
  refine ⟨rfl,?_,?_,?_,?_,?_⟩
  · intro entry member
    cases member
  · intro layer member
    cases mem_singleton.mp member
    exact .nil
  · intro snap member
    cases member
  · exact pairwise_singleton _ _
  · intro layer member entry inside
    cases mem_singleton.mp member
    cases inside

lemma flushLocked_layers (layered : s.Layered) (ranging : Ranging) (full : s.memTable.length ≠ 0) :
    (s.flushLocked ranging).layers = [] :: s.layers := by
  have sorted := layered.sorted s.memTable mem_cons_self
  rw [flushLocked,if_neg full,layers]
  rw [sortedEntries,sort_entries sorted layered.keyed (ranging.perm _),reverse_append,map_append,reverse_singleton,
    map_singleton,newSnapshotTable_entries,index_values layered.keyed]
  rfl

lemma layered_flushLocked (layered : s.Layered) (ranging : Ranging) : (s.flushLocked ranging).Layered := by
  by_cases full : s.memTable.length = 0
  · rwa [flushLocked,if_pos full]
  · have layers := flushLocked_layers layered ranging full
    have flushed : s.flushLocked ranging =
        { s with snapshots := s.snapshots ++ [newSnapshotTable (sortedEntries ranging s.memTable)],memTable := [] } := if_neg full
    refine ⟨?_,?_,?_,?_,?_,?_⟩
    · rw [flushed]
      exact layered.opened
    · rw [flushed]
      intro entry member
      cases member
    · rw [layers]
      intro layer member
      rcases mem_cons.mp member with rfl | old
      · exact .nil
      · exact layered.sorted layer old
    · rw [flushed]
      intro snap member
      rcases mem_append.mp member with old | new
      · exact layered.built snap old
      · cases mem_singleton.mp new
        rw [newSnapshotTable_entries]
    · rw [layers]
      refine pairwise_cons.mpr ⟨?_,layered.newest⟩
      intro older _ a member
      cases member
    · rw [layers]
      intro layer member entry inside
      have counter : (s.flushLocked ranging).seqCounter = s.seqCounter := by rw [flushed]
      rw [counter]
      rcases mem_cons.mp member with rfl | old
      · cases inside
      · exact layered.counted layer old entry inside

lemma flushLocked_view (layered : s.Layered) (ranging : Ranging) : (s.flushLocked ranging).view = s.view := by
  by_cases full : s.memTable.length = 0
  · rw [flushLocked,if_pos full]
  · funext key
    rw [view,flushLocked_layers layered ranging full]
    rfl

lemma flushLocked_seqCounter (ranging : Ranging) : (s.flushLocked ranging).seqCounter = s.seqCounter := by
  unfold flushLocked
  split_ifs <;> rfl

lemma flushLocked_memTable (ranging : Ranging) : (s.flushLocked ranging).memTable = [] := by
  unfold flushLocked
  split_ifs with empty
  · exact length_eq_zero_iff.mp empty
  · rfl

section Record

variable (value : Value) (isTombstone : Bool)

def stored (s : Store) (key : Key) : Store :=
  { s with
    seqCounter := s.seqCounter + 1
    memTable := Association.put key ⟨key,value,s.seqCounter + 1,isTombstone⟩ s.memTable }

lemma record_eq (layered : s.Layered) (ranging : Ranging) (key : Key) :
    (s.record ranging key value isTombstone).2 = s.stored value isTombstone key ∨
      (s.record ranging key value isTombstone).2 = (s.stored value isTombstone key).flushLocked ranging := by
  rw [record,if_neg layered.not_closed]
  dsimp only
  split_ifs
  · exact .inr rfl
  · exact .inl rfl

lemma layered_stored (layered : s.Layered) (fits : s.seqCounter + 1 ≠ 0) (key : Key) :
    (s.stored value isTombstone key).Layered := by
  have later := Counter.lt_next fits
  obtain ⟨newer,tail⟩ := pairwise_cons.mp layered.newest
  refine ⟨layered.opened,?_,?_,layered.built,?_,?_⟩
  · intro entry member
    rcases mem_put member with rfl | old
    · rfl
    · exact layered.keyed entry old
  · intro layer member
    rcases mem_cons.mp member with rfl | behind
    · exact (layered.sorted _ mem_cons_self).put
    · exact layered.sorted layer (mem_cons_of_mem _ behind)
  · refine pairwise_cons.mpr ⟨?_,tail⟩
    intro older behind a member b inside
    rcases mem_put member with rfl | old
    · exact UInt64.lt_of_le_of_lt (layered.counted older (mem_cons_of_mem _ behind) b inside) later
    · exact newer older behind a old b inside
  · intro layer member entry inside
    rcases mem_cons.mp member with rfl | behind
    · rcases mem_put inside with rfl | old
      · exact UInt64.le_refl _
      · exact UInt64.le_trans (layered.counted _ mem_cons_self entry old) (UInt64.le_of_lt later)
    · exact UInt64.le_trans (layered.counted layer (mem_cons_of_mem _ behind) entry inside) (UInt64.le_of_lt later)

lemma stored_view (key : Key) :
    (s.stored value isTombstone key).view = update s.view key (if isTombstone then none else some value) := by
  funext k
  rw [view,layers,stored,Layers.lookup,find_put,update_apply]
  by_cases same : k = key
  · rw [if_pos same,if_pos same]
    rfl
  · rw [if_neg same,if_neg same]
    rfl

lemma record_layered (layered : s.Layered) (fits : s.seqCounter + 1 ≠ 0) (ranging : Ranging) (key : Key) :
    (s.record ranging key value isTombstone).2.Layered ∧
      (s.record ranging key value isTombstone).2.seqCounter = s.seqCounter + 1 ∧
      (s.record ranging key value isTombstone).2.view =
        update s.view key (if isTombstone then none else some value) := by
  have stored := layered_stored value isTombstone layered fits key
  rcases record_eq value isTombstone layered ranging key with kept | flushed
  · rw [kept]
    exact ⟨stored,rfl,stored_view value isTombstone key⟩
  · rw [flushed,flushLocked_seqCounter,flushLocked_view stored]
    exact ⟨layered_flushLocked stored ranging,rfl,stored_view value isTombstone key⟩

end Record

section Compact

lemma keepLatest_eq (latest : List (Key × Entry)) (e : Entry) :
    keepLatest latest e = Layers.keep Entry.seq latest (e.key,e) := by
  unfold keepLatest Layers.keep
  cases find e.key latest <;> rfl

lemma latestMap_eq (snapshots : List SnapshotTable) :
    latestMap snapshots = Layers.mergeAll Entry.seq (snapshots.map (fun snap => index snap.entries)) := by
  rw [latestMap,Layers.mergeAll,foldl_map]
  congr 1
  funext latest snap
  rw [Layers.merge,index,foldl_map]
  congr 1
  funext latest e
  exact keepLatest_eq latest e

lemma latest_keyed {snapshots : List SnapshotTable} {entry : Key × Entry} (member : entry ∈ latestMap snapshots) :
    entry.2.key = entry.1 := by
  rw [latestMap_eq] at member
  obtain ⟨layer,inside,found⟩ := Layers.mem_mergeAll member
  obtain ⟨snap,_,rfl⟩ := mem_map.mp inside
  exact (mem_index.mp found).2

lemma liveEntries_eq (merging : Ranging) (snapshots : List SnapshotTable) :
    index (liveEntries merging (latestMap snapshots)) = (latestMap snapshots).filter (fun entry => !entry.2.isTombstone) := by
  have sorted : Sorted (latestMap snapshots) := by
    rw [latestMap_eq]
    exact Layers.sorted_mergeAll _
  have keyed : ∀ entry ∈ (latestMap snapshots).filter (fun entry => !entry.2.isTombstone),entry.2.key = entry.1 :=
    fun entry member => latest_keyed (mem_filter.mp member).1
  have perm := (merging.perm ((latestMap snapshots).map Prod.snd)).filter (fun e => !e.isTombstone)
  rw [filter_map] at perm
  rw [liveEntries,sort_entries (sorted.filter _) keyed perm,index_values keyed]

section
variable (layered : s.Layered)
include layered

section
variable (empty : s.memTable = [])
include empty

lemma replaced (live : List Entry) (sorted : Sorted (index live))
    (shown : ∀ key,find key (index live) = (Layers.lookup key s.layers).filter (fun e => !e.isTombstone)) :
    ({ s with snapshots := [newSnapshotTable live] } : Store).Layered ∧
      ({ s with snapshots := [newSnapshotTable live] } : Store).view = s.view := by
  have layers : ({ s with snapshots := [newSnapshotTable live] } : Store).layers = [[],index live] := by
    simp [Store.layers,empty,newSnapshotTable_entries]
  constructor
  · refine ⟨layered.opened,layered.keyed,?_,?_,?_,?_⟩
    · rw [layers]
      intro layer member
      rcases mem_cons.mp member with rfl | behind
      · exact .nil
      · cases mem_singleton.mp behind
        exact sorted
    · intro snap member
      cases mem_singleton.mp member
      rw [newSnapshotTable_entries]
    · rw [layers]
      refine pairwise_pair.mpr ?_
      intro a member
      cases member
    · rw [layers]
      intro layer member entry inside
      rcases mem_cons.mp member with rfl | behind
      · cases inside
      · cases mem_singleton.mp behind
        have found := find_of_mem sorted inside
        rw [shown] at found
        obtain ⟨l,old,held⟩ := Layers.mem_of_lookup (Option.filter_eq_some_iff.mp found).1
        exact layered.counted l old _ held
  · funext key
    rw [view,layers,Layers.lookup,Layers.lookup,Layers.lookup,shown,view]
    cases Layers.lookup key s.layers with
    | none => rfl
    | some e =>
      rw [Option.filter_some]
      cases hidden : e.isTombstone <;> simp [Entry.visible,hidden,find]

lemma purged {snap : SnapshotTable} (single : s.snapshots = [snap]) :
    ({ s with snapshots := [newSnapshotTable (snap.entries.filter (fun e => !e.isTombstone))] } : Store).Layered ∧
      ({ s with snapshots := [newSnapshotTable (snap.entries.filter (fun e => !e.isTombstone))] } : Store).view = s.view := by
  have layers : s.layers = [[],index snap.entries] := by simp [Store.layers,empty,single]
  have table : Sorted (index snap.entries) := layered.sorted _ (by simp [layers])
  have live : index (snap.entries.filter (fun e => !e.isTombstone)) =
      (index snap.entries).filter (fun entry => !entry.2.isTombstone) := by
    rw [index,index,filter_map]
    rfl
  apply replaced layered empty
  · rw [live]
    exact table.filter _
  · intro key
    rw [live,find_filter table (fun e => !e.isTombstone),layers]
    simp [Layers.lookup,find]

lemma find_latestMap (key : Key) : find key (latestMap s.snapshots) = Layers.lookup key s.layers := by
  have tables := Layers.find_mergeAll (k := key)
    (fun layer member => layered.sorted layer (mem_cons_of_mem _ member)) (pairwise_cons.mp layered.newest).2
  rw [← map_reverse,reverse_reverse] at tables
  rw [latestMap_eq,tables,layers,empty]
  rfl

lemma merged (merging : Ranging) :
    ({ s with snapshots := [newSnapshotTable (liveEntries merging (latestMap s.snapshots))] } : Store).Layered ∧
      ({ s with snapshots := [newSnapshotTable (liveEntries merging (latestMap s.snapshots))] } : Store).view = s.view := by
  have table : Sorted (latestMap s.snapshots) := by
    rw [latestMap_eq]
    exact Layers.sorted_mergeAll _
  apply replaced layered empty
  · rw [liveEntries_eq]
    exact table.filter _
  · intro key
    rw [liveEntries_eq,find_filter table (fun e => !e.isTombstone),find_latestMap layered empty]

end

lemma compact_layered (flushing merging : Ranging) :
    (s.compact flushing merging).2.Layered ∧ (s.compact flushing merging).2.view = s.view ∧
      (s.compact flushing merging).2.seqCounter = s.seqCounter := by
  have flushed := layered_flushLocked layered flushing
  have empty : (s.flushLocked flushing).memTable = [] := flushLocked_memTable flushing
  have counter : (s.flushLocked flushing).seqCounter = s.seqCounter := flushLocked_seqCounter flushing
  rw [compact,if_neg layered.not_closed,← flushLocked_view layered flushing,← counter]
  generalize s.flushLocked flushing = t at flushed empty
  dsimp only
  split
  · exact ⟨flushed,rfl,rfl⟩
  · rename_i snap single
    obtain ⟨kept,same⟩ := purged flushed empty single
    exact ⟨kept,same,rfl⟩
  · obtain ⟨kept,same⟩ := merged flushed empty merging
    exact ⟨kept,same,rfl⟩

end

end Compact

end Store

inductive Request
  | put (key : Key) (val : Value) (ranging : Ranging)
  | delete (key : Key) (ranging : Ranging)
  | get (key : Key)
  | flush (ranging : Ranging)
  | compact (flushing merging : Ranging)

def Request.writes : Request → Bool
  | .put _ _ _ => true
  | .delete _ _ => true
  | _ => false

def Store.perform (s : Store) : Request → Store
  | .put key val ranging => (s.put ranging key val).2
  | .delete key ranging => (s.delete ranging key).2
  | .get _ => s
  | .flush ranging => (s.flush ranging).2
  | .compact flushing merging => (s.compact flushing merging).2

def Store.answers : Store → List Request → List (Except StoreError (Option Value))
  | _,[] => []
  | s,.get key :: rest => s.get key :: s.answers rest
  | s,request :: rest => (s.perform request).answers rest

abbrev Plain := Key → Option Value

def Plain.perform (m : Plain) : Request → Plain
  | .put key val _ => Function.update m key (some val)
  | .delete key _ => Function.update m key none
  | _ => m

def Plain.answers : Plain → List Request → List (Option Value)
  | _,[] => []
  | m,.get key :: rest => m key :: Plain.answers m rest
  | m,request :: rest => Plain.answers (Plain.perform m request) rest

lemma perform_layered {s : Store} (layered : s.Layered) (request : Request) (fits : request.writes = true → s.seqCounter + 1 ≠ 0) :
    (s.perform request).Layered ∧ (s.perform request).view = Plain.perform s.view request ∧
      (s.perform request).seqCounter = if request.writes then s.seqCounter + 1 else s.seqCounter := by
  cases request with
  | put key val ranging =>
    obtain ⟨kept,counter,view⟩ := Store.record_layered val false layered (fits rfl) ranging key
    exact ⟨kept,view,counter⟩
  | delete key ranging =>
    obtain ⟨kept,counter,view⟩ := Store.record_layered [] true layered (fits rfl) ranging key
    exact ⟨kept,view,counter⟩
  | get key => exact ⟨layered,rfl,rfl⟩
  | flush ranging =>
    rw [Store.perform,Store.flush,if_neg layered.not_closed]
    exact ⟨Store.layered_flushLocked layered ranging,Store.flushLocked_view layered ranging,Store.flushLocked_seqCounter ranging⟩
  | compact flushing merging =>
    obtain ⟨kept,view,counter⟩ := Store.compact_layered layered flushing merging
    exact ⟨kept,view,counter⟩

lemma answers_layered {s : Store} (layered : s.Layered) (requests : List Request)
    (few : s.seqCounter.toNat + requests.countP Request.writes < UInt64.size) :
    s.answers requests = (Plain.answers s.view requests).map .ok := by
  induction requests generalizing s with
  | nil => rfl
  | cons request rest later =>
    have fits : request.writes = true → s.seqCounter + 1 ≠ 0 := by
      intro writes zero
      have next := congrArg UInt64.toNat zero
      rw [countP_cons,if_pos writes] at few
      rw [UInt64.toNat_add] at next
      simp only [UInt64.reduceToNat,UInt64.size] at next few
      omega
    obtain ⟨kept,view,counter⟩ := perform_layered layered request fits
    have fewer : (s.perform request).seqCounter.toNat + rest.countP Request.writes < UInt64.size := by
      rw [countP_cons] at few
      rw [counter]
      split_ifs at few ⊢ with writes
      · rw [UInt64.toNat_add]
        simp only [UInt64.reduceToNat,UInt64.size] at few ⊢
        omega
      · exact few
    have behind := later kept fewer
    rw [view] at behind
    cases request with
    | get key =>
      rw [Store.answers,Store.get_eq layered]
      exact congrArg _ behind
    | put key val ranging | delete key ranging | flush ranging | compact flushing merging => exact behind

/-- The store answers as a plain map does, as long as each write gets a number of its own. -/
theorem store_refines_map (cfg : Config) (requests : List Request) (few : requests.countP Request.writes < UInt64.size) :
    (new cfg).answers requests = (Plain.answers (fun _ => none) requests).map .ok := by
  apply answers_layered (Store.layered_new cfg)
  exact (Nat.zero_add _).symm ▸ few

theorem compacted_deletion :
    (new defaultConfig).answers [.put [97] [1] .inOrder,.flush .inOrder,.get [97],.delete [97] .inOrder,
      .compact .inOrder .inOrder,.get [97]] = [.ok (some [1]),.ok none] :=
  store_refines_map defaultConfig _ (by decide)

def written (key : Key) (n : Nat) : Store :=
  { new defaultConfig with seqCounter := .ofNat n,memTable := [(key,⟨key,[],.ofNat n,false⟩)] }

lemma perform_written (key : Key) (n : Nat) : (written key n).perform (.put key [] .inOrder) = written key (n + 1) := by
  have replaced : ∀ u v : Entry,put key v [(key,u)] = [(key,v)] := by
    intro u v
    rw [put,if_neg (lt_irrefl key),if_pos rfl]
  rw [written,written,UInt64.ofNat_add,Store.perform,Store.put,Store.record]
  dsimp only
  rw [replaced]
  rfl

lemma answers_written (key : Key) (n k : Nat) (rest : List Request) :
    (written key n).answers (List.replicate k (.put key [] .inOrder) ++ rest) = (written key (n + k)).answers rest := by
  induction k generalizing n with
  | zero => rfl
  | succ k later =>
    rw [replicate_succ,cons_append]
    change ((written key n).perform (.put key [] .inOrder)).answers _ = _
    rw [perform_written,later,Nat.add_assoc,Nat.add_comm 1 k]

lemma answers_new_written (key : Key) (k : Nat) (rest : List Request) :
    (new defaultConfig).answers (List.replicate (k + 1) (.put key [] .inOrder) ++ rest) = (written key (1 + k)).answers rest :=
  answers_written key 1 k rest

lemma plain_written {m : Plain} {key : Key} {val : Value} (held : m key = some val) (ranging : Ranging) (k : Nat)
    (rest : List Request) : Plain.answers m (List.replicate k (.put key val ranging) ++ rest) = Plain.answers m rest := by
  induction k with
  | zero => rfl
  | succ k later =>
    have same : Plain.perform m (.put key val ranging) = m := by
      rw [Plain.perform,← held,update_eq_self]
    rw [replicate_succ,cons_append,Plain.answers,same,later]
    intro k get
    cases get

def wrapping (other key : Key) (val : Value) : List Request :=
  List.replicate (UInt64.size - 3 + 1) (.put other [] .inOrder) ++
    [.put key val .inOrder,.flush .inOrder,.delete key .inOrder,.get key,.compact .inOrder .inOrder,.get key]

/-- Compaction takes the older entry for the later one. -/
theorem deleted_key_reappears :
    (new defaultConfig).answers (wrapping [98] [97] [1]) = [.ok none,.ok (some [1])] ∧
      Plain.answers (fun _ => none) (wrapping [98] [97] [1]) = [none,none] := by
  have count : 1 + (UInt64.size - 3) = 18446744073709551614 := by decide
  constructor
  · rw [wrapping,answers_new_written]
    rfl
  · rw [wrapping,replicate_succ,cons_append,Plain.answers]
    · rw [Plain.perform,plain_written (update_self _ _ _)]
      rfl
    · intro k get
      cases get

end Tempest.Compactor
