import Tempest.Types
import Tempest.Lib.Filing
import Tempest.Lib.Interaction

/-! The fenced storage of `internal/fencing`. A `Put` or `Delete` call first compares the
expiry of its token with the clock, without the lock, and then validates the number
of the token and writes in one critical section. Any number of calls are under way. -/
open List
namespace Tempest.Fencing
open Filing Interaction

structure FencingToken where
  resource : String
  token : UInt64
  owner : String
  epoch : UInt64
  issuedAt : Time
  expiresAt : Time
  deriving DecidableEq

def FencingToken.isExpired (t : FencingToken) (now : Time) : Bool := t.expiresAt < now

inductive Sentinel
  | staleFencingToken | tokenExpired | preempted
  deriving DecidableEq

def Sentinel.text : Sentinel → String
  | .staleFencingToken => "fencing: stale fencing token rejected (zombie write defense)"
  | .tokenExpired => "fencing: fencing token lease has expired"
  | .preempted => "fencing: lock preemption detected by higher fencing token"

structure Failure where
  sentinel : Sentinel
  message : String
  deriving DecidableEq

/-- The formatting of a text by `%q` and of an instant by `%s`. -/
structure Printer where
  quote : String → String
  time : Time → String

structure StorageEntry where
  key : String
  value : List UInt8
  fencingToken : FencingToken
  deriving DecidableEq

structure Highest where
  key : String
  number : UInt64
  deriving DecidableEq

structure FencedStorage where
  store : Table StorageEntry.key := .empty
  highestToken : Table Highest.key := .empty
  rejectedCnt : UInt64 := 0

namespace FencedStorage

def accept (s : FencedStorage) (key : String) (token : FencingToken)
    (write : Table StorageEntry.key → Table StorageEntry.key) : FencedStorage :=
  { s with highestToken := s.highestToken.insert ⟨key,token.token⟩, store := write s.store }

/-- The critical section of `Put` and `Delete`, which differ in the message of the
rejection and in what is written. -/
def validate (s : FencedStorage) (key : String) (token : FencingToken) (message : UInt64 → String)
    (write : Table StorageEntry.key → Table StorageEntry.key) : Except Failure Unit × FencedStorage :=
  match s.highestToken.lookup key with
  | some highest =>
    if token.token < highest.number then
      (.error ⟨.staleFencingToken,Sentinel.staleFencingToken.text ++ ": " ++ message highest.number⟩,
        { s with rejectedCnt := s.rejectedCnt + 1 })
    else (.ok (),s.accept key token write)
  | none => (.ok (),s.accept key token write)

def put (p : Printer) (s : FencedStorage) (key : String) (value : List UInt8) (token : FencingToken) :
    Except Failure Unit × FencedStorage :=
  s.validate key token
    (fun highest => "rejected token " ++ toString token.token ++ " < highest observed token " ++ toString highest ++
      " for key " ++ p.quote key)
    (fun store => store.insert ⟨key,value,token⟩)

def delete (s : FencedStorage) (key : String) (token : FencingToken) : Except Failure Unit × FencedStorage :=
  s.validate key token
    (fun highest => "cannot delete with stale token " ++ toString token.token ++ " < highest " ++ toString highest)
    (fun store => store.erase key)

def get (s : FencedStorage) (key : String) : Option (List UInt8 × FencingToken) :=
  (s.store.lookup key).map (fun entry => (entry.value,entry.fencingToken))

def highestObservedToken (s : FencedStorage) (key : String) : UInt64 :=
  ((s.highestToken.lookup key).map Highest.number).getD 0

end FencedStorage

inductive Op
  | now
  | put (key : String) (value : List UInt8) (token : FencingToken)
  | delete (key : String) (token : FencingToken)

@[reducible] def Op.Res : Op → Type
  | now => Time
  | put .. | delete .. => Except Failure Unit

def put (p : Printer) (key : String) (value : List UInt8) (token : FencingToken) : Prog Op.Res (Except Failure Unit) :=
  .call .now (fun now =>
    if token.isExpired now then
      .done (.error ⟨.tokenExpired,Sentinel.tokenExpired.text ++ ": token " ++ toString token.token ++ " for " ++ key ++
        " expired at " ++ p.time token.expiresAt⟩)
    else .call (.put key value token) .done)

def delete (key : String) (token : FencingToken) : Prog Op.Res (Except Failure Unit) :=
  .call .now (fun now =>
    if token.isExpired now then .done (.error ⟨.tokenExpired,Sentinel.tokenExpired.text⟩)
    else .call (.delete key token) .done)

/-- The storage, how often the clock was read, and the keys and token numbers of the
accepted mutations in the order of their acceptance. -/
structure Shared where
  storage : FencedStorage := {}
  tick : Nat := 0
  accepted : List (String × UInt64) := []

def Shared.settle (sh : Shared) (key : String) (token : FencingToken) (result : Except Failure Unit × FencedStorage) :
    Except Failure Unit × Shared :=
  match result with
  | (.ok (),storage) => (.ok (),{ sh with storage, accepted := sh.accepted ++ [(key,token.token)] })
  | (.error e,storage) => (.error e,{ sh with storage })

variable (p : Printer) (clock : Nat → Time)

def exec (op : Op) (sh : Shared) : op.Res × Shared :=
  match op with
  | .now => (clock sh.tick,{ sh with tick := sh.tick + 1 })
  | .put key value token => sh.settle key token (sh.storage.put p key value token)
  | .delete key token => sh.settle key token (sh.storage.delete key token)

abbrev System := Pool Op.Res Shared Unit (Except Failure Unit)

inductive Choice
  | put (key : String) (value : List UInt8) (token : FencingToken)
  | delete (key : String) (token : FencingToken)
  | advance (i : Nat)

def act (s : System) : Choice → System
  | .put key value token => { s with threads := s.threads ++ [⟨(),put p key value token⟩] }
  | .delete key token => { s with threads := s.threads ++ [⟨(),delete key token⟩] }
  | .advance i => s.advance (exec p clock) (fun _ _ _ => ()) i

def idle : System := ⟨{},[]⟩

def Shared.numbers (sh : Shared) (key : String) : List UInt64 :=
  (sh.accepted.filter (fun entry => entry.1 = key)).map Prod.snd

/-- The numbers accepted for a key do not decrease, the highest observed token is the
greatest of them, and what is stored carries it. -/
structure Fenced (s : System) : Prop where
  ordered : ∀ key, (s.shared.numbers key).Pairwise (· ≤ ·)
  greatest : ∀ key, s.shared.numbers key = [] ∧ s.shared.storage.highestObservedToken key = 0 ∨
    s.shared.storage.highestObservedToken key ∈ s.shared.numbers key ∧
      ∀ n ∈ s.shared.numbers key, n ≤ s.shared.storage.highestObservedToken key
  current : ∀ key value token, s.shared.storage.get key = some (value,token) →
    token.token = s.shared.storage.highestObservedToken key

/-- A step lowers no highest token, and if it changes what is stored, then by it a call
ends without an error. -/
structure Guarded (s : System) (c : Choice) : Prop where
  rises : ∀ key, s.shared.storage.highestObservedToken key ≤ (act p clock s c).shared.storage.highestObservedToken key
  quiet : (act p clock s c).shared.storage.store = s.shared.storage.store ∧
      (act p clock s c).shared.storage.highestToken = s.shared.storage.highestToken ∨
    ∃ i, c = .advance i ∧ (act p clock s c).threads[i]? = some ⟨(),.done (.ok ())⟩

/-- The map of the highest tokens has the number accepted last, which is also that of
the stored entry. -/
structure Sound (sh : Shared) : Prop where
  ordered : ∀ key, (sh.numbers key).Pairwise (· ≤ ·)
  latest : ∀ key, (sh.storage.highestToken.lookup key).map Highest.number = (sh.numbers key).getLast?
  current : ∀ key entry, sh.storage.store.lookup key = some entry →
    (sh.numbers key).getLast? = some entry.fencingToken.token

lemma le_last {numbers : List UInt64} (ordered : numbers.Pairwise (· ≤ ·)) {last : UInt64}
    (ends : numbers.getLast? = some last) (n : UInt64) (member : n ∈ numbers) : n ≤ last := by
  obtain ⟨front,rfl⟩ := getLast?_eq_some_iff.mp ends
  rcases mem_append.mp member with before | itself
  · exact (pairwise_append.mp ordered).2.2 n before last (mem_singleton.mpr rfl)
  · rw [mem_singleton.mp itself]
    exact UInt64.le_refl last

variable {s : System}

lemma Sound.fenced (sound : Sound s.shared) : Fenced s := by
  have highest : ∀ key,s.shared.storage.highestObservedToken key = (s.shared.numbers key).getLast?.getD 0 := by
    intro key
    rw [FencedStorage.highestObservedToken,sound.latest]
  refine ⟨sound.ordered,?_,?_⟩
  · intro key
    rw [highest]
    cases ends : (s.shared.numbers key).getLast? with
    | none => exact .inl ⟨getLast?_eq_none_iff.mp ends,rfl⟩
    | some last => exact .inr ⟨mem_of_getLast? ends,le_last (sound.ordered key) ends⟩
  · intro key value token stored
    obtain ⟨entry,found,same⟩ := Option.map_eq_some_iff.mp stored
    rw [highest,sound.current key entry found]
    cases same
    rfl

lemma validate_cases (s : FencedStorage) (key : String) (token : FencingToken) (message : UInt64 → String)
    (write : Table StorageEntry.key → Table StorageEntry.key) :
    (∃ e count,s.validate key token message write = (.error e,{ s with rejectedCnt := count })) ∨
    s.validate key token message write = (.ok (),s.accept key token write) ∧
      ∀ highest,s.highestToken.lookup key = some highest → highest.number ≤ token.token := by
  unfold FencedStorage.validate
  cases found : s.highestToken.lookup key with
  | none => exact .inr ⟨rfl,fun _ missing => by cases missing⟩
  | some highest =>
    dsimp only
    split_ifs with stale
    · exact .inl ⟨_,_,rfl⟩
    · refine .inr ⟨rfl,?_⟩
      intro other same
      cases same
      exact UInt64.not_lt.mp stale

/-- What a step that is no accepted mutation leaves alone. -/
structure Calm (sh after : Shared) : Prop where
  store : after.storage.store = sh.storage.store
  highestToken : after.storage.highestToken = sh.storage.highestToken
  accepted : after.accepted = sh.accepted

/-- What an accepted mutation of a key does. -/
structure Accepts (sh after : Shared) (key : String) (number : UInt64) : Prop where
  fresh : ∀ highest, sh.storage.highestToken.lookup key = some highest → highest.number ≤ number
  highestToken : after.storage.highestToken = sh.storage.highestToken.insert ⟨key,number⟩
  accepted : after.accepted = sh.accepted ++ [(key,number)]
  store : ∀ k entry, after.storage.store.lookup k = some entry →
    k = key ∧ entry.fencingToken.token = number ∨ k ≠ key ∧ sh.storage.store.lookup k = some entry

lemma settle_cases (sh : Shared) (key : String) (token : FencingToken) (message : UInt64 → String)
    (write : Table StorageEntry.key → Table StorageEntry.key)
    (writes : ∀ k entry,(write sh.storage.store).lookup k = some entry →
      k = key ∧ entry.fencingToken.token = token.token ∨ k ≠ key ∧ sh.storage.store.lookup k = some entry) :
    Calm sh (sh.settle key token (sh.storage.validate key token message write)).2 ∨
    (sh.settle key token (sh.storage.validate key token message write)).1 = .ok () ∧
      Accepts sh (sh.settle key token (sh.storage.validate key token message write)).2 key token.token := by
  rcases validate_cases sh.storage key token message write with ⟨e,count,rejected⟩ | ⟨passed,fresh⟩
  · rw [rejected]
    exact .inl ⟨rfl,rfl,rfl⟩
  · rw [passed]
    exact .inr ⟨rfl,fresh,rfl,rfl,writes⟩

lemma put_cases (sh : Shared) (key : String) (value : List UInt8) (token : FencingToken) :
    Calm sh (exec p clock (.put key value token) sh).2 ∨ (exec p clock (.put key value token) sh).1 = .ok () ∧
      Accepts sh (exec p clock (.put key value token) sh).2 key token.token := by
  apply settle_cases
  intro k entry found
  rw [Table.lookup_insert] at found
  split_ifs at found with same
  · cases found
    exact .inl ⟨same,rfl⟩
  · exact .inr ⟨same,found⟩

lemma delete_cases (sh : Shared) (key : String) (token : FencingToken) :
    Calm sh (exec p clock (.delete key token) sh).2 ∨ (exec p clock (.delete key token) sh).1 = .ok () ∧
      Accepts sh (exec p clock (.delete key token) sh).2 key token.token := by
  apply settle_cases
  intro k entry found
  rw [Table.lookup_erase] at found
  split_ifs at found with same
  exact .inr ⟨same,found⟩

section

variable {sh after : Shared} {key : String} {number : UInt64}

section
variable (accepts : Accepts sh after key number)
variable (k : String)

include accepts

lemma Accepts.numbers : after.numbers k = if k = key then sh.numbers k ++ [number] else sh.numbers k := by
  rw [Shared.numbers,accepts.accepted,filter_append]
  split_ifs with same
  · simp [Shared.numbers,same]
  · simp [Shared.numbers,Ne.symm same]

lemma Accepts.highest : (after.storage.highestToken.lookup k).map Highest.number =
      if k = key then some number else (sh.storage.highestToken.lookup k).map Highest.number := by
  rw [accepts.highestToken,Table.lookup_insert]
  split_ifs <;> rfl

lemma Accepts.above (sound : Sound sh) (n : UInt64) (member : n ∈ sh.numbers key) : n ≤ number := by
  have latest := sound.latest key
  cases found : sh.storage.highestToken.lookup key with
  | none =>
    rw [found] at latest
    rw [getLast?_eq_none_iff.mp latest.symm] at member
    cases member
  | some highest =>
    rw [found] at latest
    exact UInt64.le_trans (le_last (sound.ordered key) latest.symm n member) (accepts.fresh highest found)

end

lemma Calm.sound (calm : Calm sh after) (sound : Sound sh) : Sound after := by
  have same : after.numbers = sh.numbers := by
    funext k
    rw [Shared.numbers,calm.accepted,Shared.numbers]
  refine ⟨?_,?_,?_⟩
  · rw [same]
    exact sound.ordered
  · rw [same,calm.highestToken]
    exact sound.latest
  · rw [same,calm.store]
    exact sound.current

lemma Accepts.sound (accepts : Accepts sh after key number) (sound : Sound sh) : Sound after := by
  refine ⟨?_,?_,?_⟩
  · intro k
    rw [accepts.numbers]
    split_ifs with same
    · cases same
      apply pairwise_append.mpr
      refine ⟨sound.ordered key,pairwise_singleton _ _,?_⟩
      intro n member last itself
      rw [mem_singleton.mp itself]
      exact accepts.above sound n member
    · exact sound.ordered k
  · intro k
    rw [accepts.highest,accepts.numbers]
    split_ifs with same
    · exact getLast?_concat.symm
    · exact sound.latest k
  · intro k entry found
    rw [accepts.numbers]
    rcases accepts.store k entry found with ⟨rfl,carries⟩ | ⟨different,before⟩
    · rw [if_pos rfl,getLast?_concat,carries]
    · rw [if_neg different]
      exact sound.current k entry before

lemma Calm.rises (calm : Calm sh after) (k : String) :
    sh.storage.highestObservedToken k ≤ after.storage.highestObservedToken k := by
  rw [FencedStorage.highestObservedToken,FencedStorage.highestObservedToken,calm.highestToken]
  exact UInt64.le_refl _

lemma Accepts.rises (accepts : Accepts sh after key number) (k : String) :
    sh.storage.highestObservedToken k ≤ after.storage.highestObservedToken k := by
  rw [FencedStorage.highestObservedToken,FencedStorage.highestObservedToken,accepts.highest]
  split_ifs with same
  · cases same
    cases found : sh.storage.highestToken.lookup key with
    | none => exact UInt64.zero_le
    | some highest => exact accepts.fresh highest found
  · exact UInt64.le_refl _

end

def Settles : Prog Op.Res (Except Failure Unit) → Prop
  | .done _ => True
  | .call .now next => ∀ now, Settles (next now)
  | .call (.put ..) next => next = .done
  | .call (.delete ..) next => next = .done

lemma put_settles (key : String) (value : List UInt8) (token : FencingToken) : Settles (put p key value token) := by
  intro now
  dsimp only
  split_ifs
  · exact trivial
  · rfl

lemma delete_settles (key : String) (token : FencingToken) : Settles (delete key token) := by
  intro now
  dsimp only
  split_ifs
  · exact trivial
  · rfl

lemma call_cases (sh : Shared) {op : Op} {next : op.Res → Prog Op.Res (Except Failure Unit)}
    (settles : Settles (.call op next)) : Settles (next (exec p clock op sh).1) ∧ (Calm sh (exec p clock op sh).2 ∨
      next (exec p clock op sh).1 = .done (.ok ()) ∧ ∃ key number,Accepts sh (exec p clock op sh).2 key number) := by
  cases op with
  | now => exact ⟨settles _,.inl ⟨rfl,rfl,rfl⟩⟩
  | put key value token =>
    cases settles
    refine ⟨trivial,(put_cases p clock sh key value token).imp_right ?_⟩
    rintro ⟨passed,accepts⟩
    exact ⟨congrArg Prog.done passed,key,token.token,accepts⟩
  | delete key token =>
    cases settles
    refine ⟨trivial,(delete_cases p clock sh key token).imp_right ?_⟩
    rintro ⟨passed,accepts⟩
    exact ⟨congrArg Prog.done passed,key,token.token,accepts⟩

structure Reached (s : System) : Prop where
  sound : Sound s.shared
  settles : ∀ t ∈ s.threads, Settles t.rest

inductive Moves (s : System) (c : Choice) (after : System) : Prop
  | calm (calm : Calm s.shared after.shared)
  | accepts (i : Nat) (key : String) (number : UInt64) (chosen : c = .advance i)
      (ended : after.threads[i]? = some ⟨(),.done (.ok ())⟩) (accepts : Accepts s.shared after.shared key number)

section
variable (reached : Reached s)
variable (c : Choice)

include reached

lemma start_cases {call : Prog Op.Res (Except Failure Unit)} (settles : Settles call) :
    Moves s c ⟨s.shared,s.threads ++ [⟨(),call⟩]⟩ ∧ ∀ t ∈ s.threads ++ [⟨(),call⟩],Settles t.rest := by
  refine ⟨.calm ⟨rfl,rfl,rfl⟩,?_⟩
  intro t member
  rcases mem_append.mp member with old | new
  · exact reached.settles t old
  · rw [mem_singleton.mp new]
    exact settles

lemma advance_cases (i : Nat) : Moves s (.advance i) (act p clock s (.advance i)) ∧
      ∀ t ∈ (act p clock s (.advance i)).threads,Settles t.rest := by
  have idles : Moves s (.advance i) s ∧ ∀ t ∈ s.threads,Settles t.rest := ⟨.calm ⟨rfl,rfl,rfl⟩,reached.settles⟩
  simp only [act,Pool.advance]
  cases found : s.threads[i]? with
  | none => exact idles
  | some thread =>
    obtain ⟨label,rest⟩ := thread
    cases rest with
    | done value => exact idles
    | call op next =>
      obtain ⟨settles,moves⟩ := call_cases p clock s.shared (reached.settles _ (mem_of_getElem? found))
      constructor
      · rcases moves with calm | ⟨ended,key,number,accepts⟩
        · exact .calm calm
        · refine .accepts i key number rfl ?_ accepts
          rw [List.getElem?_set_self (List.getElem?_eq_some_iff.mp found).1,ended]
      · intro t member
        rcases mem_or_eq_of_mem_set member with old | rfl
        · exact reached.settles t old
        · exact settles

lemma act_cases : Moves s c (act p clock s c) ∧ ∀ t ∈ (act p clock s c).threads,Settles t.rest := by
  cases c with
  | put key value token => exact start_cases reached _ (put_settles p key value token)
  | delete key token => exact start_cases reached _ (delete_settles key token)
  | advance i => exact advance_cases p clock reached i

lemma reached_act : Reached (act p clock s c) := by
  obtain ⟨moves,settles⟩ := act_cases p clock reached c
  refine ⟨?_,settles⟩
  cases moves with
  | calm calm => exact calm.sound reached.sound
  | accepts i key number chosen ended accepts => exact accepts.sound reached.sound

lemma guarded_act : Guarded p clock s c := by
  cases (act_cases p clock reached c).1 with
  | calm calm => exact ⟨calm.rises,.inl ⟨calm.store,calm.highestToken⟩⟩
  | accepts i key number chosen ended accepts => exact ⟨accepts.rises,.inr ⟨i,chosen,ended⟩⟩

end

lemma reached_idle : Reached idle := by
  constructor
  · constructor
    · intro key
      exact List.Pairwise.nil
    · intro key
      rfl
    · intro key entry found
      cases found
  · intro t member
    cases member

/-- In every interleaving of calls, with any clock, the storage stays fenced and each
step is guarded. -/
theorem fenced_throughout (choices : List Choice) :
    Throughout (act p clock) Fenced idle choices ∧ Along (act p clock) (Guarded p clock) idle choices := by
  constructor
  · intro done _
    have reached :=
      List.foldlRecOn done (act p clock) reached_idle (fun _ kept c _ => reached_act p clock kept c)
    exact reached.sound.fenced
  · apply Along.always (P := Reached)
    · intro s c reached
      exact reached_act p clock reached c
    · intro s c reached
      exact guarded_act p clock reached c
    · exact reached_idle

private def tokenOf (number : UInt64) : FencingToken := ⟨"r",number,"w",1,0,10⟩

example : ([.put "k" [1] (tokenOf 2),.delete "k" (tokenOf 2),.put "k" [3] (tokenOf 1),.advance 0,.advance 0,
      .advance 1,.advance 1,.advance 2,.advance 2].foldl (act ⟨id,fun _ => ""⟩ (fun _ => 5)) idle).shared.accepted =
    [("k",2),("k",2)] := by
  decide

end Tempest.Fencing
