import Tempest.Cron
import Tempest.RoundTrip

/-! The page links of `internal/api`. A link is the path with its limit and its offset; a
client that follows it asks with them. The empty text of a parameter is no number. -/
namespace Tempest.Pagination
open Deltadiff

structure PaginationParams where
  limit : Int
  offset : Int
  deriving DecidableEq

def parsePagination (get : String → Str) : PaginationParams where
  limit := ((Cron.atoi (get "limit")).filter fun v => 0 < v ∧ v ≤ 1000).getD 100
  offset := ((Cron.atoi (get "offset")).filter fun v => 0 ≤ v).getD 0

structure Link where
  limit : Int
  offset : Int
  deriving DecidableEq

def itoa (i : Int) : Str := if i < 0 then '-' :: Deltadiff.itoa i.natAbs else Deltadiff.itoa i.natAbs

def Link.text (base : Str) (l : Link) : Str :=
  base ++ "?limit=".toList ++ itoa l.limit ++ "&offset=".toList ++ itoa l.offset

def Link.query (l : Link) (name : String) : Str :=
  if name = "limit" then itoa l.limit else if name = "offset" then itoa l.offset else []

structure PaginationLinks where
  self : Link
  next : Option Link
  prev : Option Link
  first : Link
  last : Link

def wrap (i : Int) : Int := i.bmod 18446744073709551616

def lastOffset (total limit : Int) : Int :=
  let full := wrap (total.tdiv limit * limit)
  let last := if total ≤ full then wrap (full - limit) else full
  if last < 0 then 0 else last

def buildLinks (total limit offset : Int) : PaginationLinks where
  self := ⟨limit,offset⟩
  next := if wrap (offset + limit) < total then some ⟨limit,wrap (offset + limit)⟩ else none
  prev := if 0 < offset then some ⟨limit,if wrap (offset - limit) < 0 then 0 else wrap (offset - limit)⟩ else none
  first := ⟨limit,0⟩
  last := ⟨limit,lastOffset total limit⟩

def PaginationLinks.all (links : PaginationLinks) : List Link :=
  [links.self,links.first,links.last] ++ links.next.toList ++ links.prev.toList

/-- Where a client is after it has followed so many next links. -/
def following (total : Int) (start : Link) : Nat → Option Link
  | 0 => some start
  | k + 1 => (following total start k).bind fun l =>
    (buildLinks total (parsePagination l.query).limit (parsePagination l.query).offset).next

structure Tiles (total : Int) (p : PaginationParams) : Prop where
  next : (buildLinks total p.limit p.offset).next.isSome ↔ p.offset + p.limit < total
  nonneg : ∀ l ∈ (buildLinks total p.limit p.offset).all,0 ≤ l.offset
  reached : ∃ k : Nat,(buildLinks total p.limit p.offset).last.offset = k * p.limit
  chain : ∀ k : Nat,following total (buildLinks total p.limit p.offset).first k =
    if k * p.limit ≤ (buildLinks total p.limit p.offset).last.offset then some ⟨p.limit,k * p.limit⟩ else none

lemma wrap_eq {i : Int} (low : -9223372036854775808 ≤ i) (high : i < 9223372036854775808) : wrap i = i := by
  rw [wrap,Int.bmod_def]
  omega

lemma succ_mul (k : Nat) (limit : Int) : ((k + 1 : Nat) : Int) * limit = k * limit + limit := by
  rw [Int.natCast_add,Int.add_mul,Int.natCast_one,Int.one_mul]

lemma parsePagination_bounds (get : String → Str) : 0 < (parsePagination get).limit ∧ (parsePagination get).limit ≤ 1000 ∧
    0 ≤ (parsePagination get).offset ∧ (parsePagination get).offset < 9223372036854775808 := by
  have limit : ∀ n : Option Int,0 < (n.filter fun v => 0 < v ∧ v ≤ 1000).getD 100 ∧
      (n.filter fun v => 0 < v ∧ v ≤ 1000).getD 100 ≤ 1000 := by
    intro n
    cases kept : n.filter fun v => 0 < v ∧ v ≤ 1000 with
    | none => decide
    | some v => simpa using (Option.filter_eq_some_iff.mp kept).2
  refine ⟨(limit _).1,(limit _).2,?_⟩
  dsimp only [parsePagination]
  cases kept : (Cron.atoi (get "offset")).filter fun v => 0 ≤ v with
  | none => decide
  | some v =>
    obtain ⟨read,nonneg⟩ := Option.filter_eq_some_iff.mp kept
    have fits := (Option.filter_eq_some_iff.mp read).2
    simp only [decide_eq_true_eq] at nonneg fits
    exact ⟨nonneg,by rw [Option.getD_some]; omega⟩

section Pages
variable {total limit offset : Int} (positive : 0 < limit) (small : limit ≤ 1000)
include positive small

lemma parsePagination_query (nonneg : 0 ≤ offset) (fits : offset < 9223372036854775808) :
    parsePagination (Link.query ⟨limit,offset⟩) = ⟨limit,offset⟩ := by
  have read : ∀ i : Int,0 ≤ i → i < 9223372036854775808 → Cron.atoi (itoa i) = some i := by
    intro i nonneg fits
    rw [itoa,if_neg (not_lt.mpr nonneg),Cron.atoi,atoi_itoa,Int.natAbs_of_nonneg nonneg]
    exact Option.filter_some_pos (decide_eq_true (by omega))
  simp only [parsePagination,Link.query,if_true]
  rw [read limit positive.le (by omega),if_neg (by decide),read offset nonneg fits]
  rw [Option.filter_some_pos (by simp [positive,small]),Option.filter_some_pos (by simp [nonneg])]
  rfl

lemma lastOffset_spec (nonneg : 0 ≤ total) (fits : total < 9223372036854775808) :
    (∃ k : Nat,lastOffset total limit = k * limit) ∧ total ≤ lastOffset total limit + limit ∧
      (0 < lastOffset total limit → lastOffset total limit < total) := by
  have whole := Int.mul_ediv_add_emod total limit
  have rest := Int.emod_nonneg total positive.ne'
  have less := Int.emod_lt_of_pos total positive
  obtain ⟨k,count⟩ := Int.eq_ofNat_of_zero_le (Int.ediv_nonneg nonneg positive.le)
  rw [count,Int.mul_comm] at whole
  have filled := Int.mul_nonneg (Int.natCast_nonneg k) positive.le
  have full : wrap (total.tdiv limit * limit) = k * limit := by
    rw [Int.tdiv_eq_ediv_of_nonneg nonneg,count]
    exact wrap_eq (by omega) (by omega)
  simp only [lastOffset,full,wrap_eq (i := k * limit - limit) (by omega) (by omega)]
  cases k with
  | zero =>
    rw [Int.natCast_zero] at whole ⊢
    split_ifs <;> exact ⟨⟨0,by omega⟩,by omega,by omega⟩
  | succ k =>
    have more := succ_mul k limit
    have before := Int.mul_nonneg (Int.natCast_nonneg k) positive.le
    split_ifs
    · omega
    · exact ⟨⟨k,by omega⟩,by omega,by omega⟩
    · omega
    · exact ⟨⟨k + 1,rfl⟩,by omega,by omega⟩

variable (nonneg : 0 ≤ total) (fits : total < 9223372036854775808)
include nonneg fits

/-- The last page starts at the largest multiple of the limit below the total. -/
lemma lastOffset_room : lastOffset total limit + limit < 9223372036854775808 ↔
    (total - 1) / limit * limit + limit < 9223372036854775808 := by
  obtain ⟨⟨k,last⟩,enough,inside⟩ := lastOffset_spec positive small nonneg fits
  have least := Int.mul_nonneg (Int.natCast_nonneg k) positive.le
  rcases nonneg.eq_or_lt with rfl | some_
  · have below := Int.ediv_mul_le (0 - 1) positive.ne'
    omega
  · have pages : (total - 1) / limit = k :=
      ((Int.ediv_emod_unique positive (r := total - 1 - k * limit)).mpr
        ⟨by rw [Int.mul_comm limit]; omega,by omega,by omega⟩).1
    rw [pages,last]

lemma following_first (room : lastOffset total limit + limit < 9223372036854775808) (k : Nat) :
    following total ⟨limit,0⟩ k = if k * limit ≤ lastOffset total limit then some ⟨limit,k * limit⟩ else none := by
  obtain ⟨⟨m,last⟩,enough,inside⟩ := lastOffset_spec positive small nonneg fits
  induction k with
  | zero =>
    have least := Int.mul_nonneg (Int.natCast_nonneg m) positive.le
    rw [following,Int.natCast_zero,Int.zero_mul,if_pos (by omega)]
  | succ k ih =>
    have more := succ_mul k limit
    have least := Int.mul_nonneg (Int.natCast_nonneg k) positive.le
    -- a page before the last one is a whole page before it
    have before : k * limit + limit < total ↔ k * limit + limit ≤ lastOffset total limit := by
      refine ⟨fun less => ?_,fun most => by omega⟩
      have pages : (k : Int) < m := Int.lt_of_mul_lt_mul_right (a := limit) (by omega) positive.le
      have := Int.mul_le_mul_of_nonneg_right (show ((k + 1 : Nat) : Int) ≤ m by omega) positive.le
      omega
    rw [following,ih,more]
    split_ifs with here there there
    · rw [Option.bind_some,parsePagination_query positive small least (by omega),buildLinks]
      dsimp only
      rw [wrap_eq (by omega) (by omega),if_pos (before.mpr there)]
    · rw [Option.bind_some,parsePagination_query positive small least (by omega),buildLinks]
      dsimp only
      rw [wrap_eq (by omega) (by omega),if_neg (mt before.mp there)]
    · omega
    · rfl

end Pages

/-- Page links tile the collection exactly if neither the offset nor the largest multiple of
the limit below the total is within a page of the largest number. -/
theorem tiles_iff (total : Int) (get : String → Str) (nonneg : 0 ≤ total) (fits : total < 9223372036854775808) :
    Tiles total (parsePagination get) ↔
      (parsePagination get).offset + (parsePagination get).limit < 9223372036854775808 ∧
        (total - 1) / (parsePagination get).limit * (parsePagination get).limit + (parsePagination get).limit <
          9223372036854775808 := by
  obtain ⟨positive,small,low,high⟩ := parsePagination_bounds get
  generalize parsePagination get = p at positive small low high ⊢
  rw [← lastOffset_room positive small nonneg fits]
  obtain ⟨⟨m,last⟩,enough,inside⟩ := lastOffset_spec positive small nonneg fits
  have least := Int.mul_nonneg (Int.natCast_nonneg m) positive.le
  -- an offset within a page of the largest number leads to a negative one
  have wrapped : ∀ offset,0 ≤ offset → offset < 9223372036854775808 → 9223372036854775808 ≤ offset + p.limit →
      wrap (offset + p.limit) < total := by
    intro offset low high beyond
    rw [wrap,Int.bmod_def]
    omega
  constructor
  · intro tiles
    refine ⟨not_le.mp fun beyond => ?_,not_le.mp fun beyond => ?_⟩
    · have next := tiles.next.mp (by rw [buildLinks,if_pos (wrapped _ low high beyond)]; rfl)
      omega
    · have here : following total ⟨p.limit,0⟩ m = some ⟨p.limit,m * p.limit⟩ := (tiles.chain m).trans (if_pos last.ge)
      have there : following total ⟨p.limit,0⟩ (m + 1) = none := (tiles.chain (m + 1)).trans (if_neg (by
        change ¬ _ ≤ lastOffset total p.limit
        rw [succ_mul]
        omega))
      rw [following,here,Option.bind_some,parsePagination_query positive small least (by omega),buildLinks,
        if_pos (wrapped _ least (by omega) (by omega))] at there
      cases there
  · rintro ⟨room,roomLast⟩
    have next := wrap_eq (i := p.offset + p.limit) (by omega) room
    have prev := wrap_eq (i := p.offset - p.limit) (by omega) (by omega)
    refine ⟨?_,?_,⟨m,last⟩,following_first positive small nonneg fits roomLast⟩
    · rw [buildLinks,next,Option.isSome_ite]
    · dsimp only [buildLinks,PaginationLinks.all]
      rw [prev]
      intro l member
      simp only [List.mem_append,List.mem_cons,Option.mem_toList] at member
      grind

theorem tiles_seven : Tiles 7 (parsePagination fun _ => ['3']) :=
  (tiles_iff 7 (fun _ => ['3']) (by decide) (by decide)).mpr (by decide)

/-- The offset of the largest number, which a request may have. -/
def largest : String → Str := Link.query ⟨1000,9223372036854775807⟩

theorem next_negative : (buildLinks 0 (parsePagination largest).limit (parsePagination largest).offset).next =
    some ⟨1000,-9223372036854774809⟩ := by
  decide +kernel

end Tempest.Pagination
