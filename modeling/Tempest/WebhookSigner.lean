import Tempest.Lib.ByteText

/-! The signatures of webhook deliveries. Instants are counted in nanoseconds from the zero
time, and their seconds fit into 64 bits. A header is a text of fields, of which the last
timestamp and the last signature count. -/
namespace Tempest.WebhookSigner
open ByteText List

abbrev Bytes := List UInt8

abbrev Digest := {sum : Bytes // sum.length = 64}

def second : Int := 1000000000

def unixToInternal : Int := 62135596800

def minInt64 : Int := -9223372036854775808

def maxInt64 : Int := 9223372036854775807

def int64 (n : Int) : Int := (n - minInt64) % 18446744073709551616 + minInt64

def unixTime (sec : Int) : Int := int64 (sec + unixToInternal) * second

def unix (ts : Int) : Int := int64 (ts / second - unixToInternal)

def sub (t u : Int) : Int := max minInt64 (min maxInt64 (t - u))

def defaultTimestampTolerance : Int := 300 * second

inductive Error where
  | signatureMismatch
  | replayTimestampExpired (age tolerance : Int)
  | malformedSignature
  | invalidTimestamp
  deriving DecidableEq

def Error.text (duration : Int → String) : Error → String
  | signatureMismatch => "webhook: HMAC signature mismatch"
  | replayTimestampExpired age tolerance =>
    "webhook: timestamp outside allowed replay tolerance window: age " ++ duration age ++ " exceeds tolerance " ++
      duration tolerance
  | malformedSignature => "webhook: malformed signature or timestamp header"
  | invalidTimestamp => "webhook: malformed signature or timestamp header: invalid timestamp"

def cut (sep : UInt8) (text : Bytes) : Option (Bytes × Bytes) :=
  match text.dropWhile (· ≠ sep) with
  | [] => none
  | _ :: rest => some (text.takeWhile (· ≠ sep),rest)

def assign (found : Bytes × Bytes) (part : Bytes) : Bytes × Bytes :=
  match cut 61 (trimSpace part) with
  | none => found
  | some (key,value) =>
    if key = [116] then (value,found.2)
    else if key = [118,49] then (found.1,value)
    else found

def fields (header : Bytes) : Bytes × Bytes := (header.splitOn 44).foldl assign ([],[])

def parseInt (text : Bytes) : Option Int := (parse text).filter (fun n => minInt64 ≤ n ∧ n ≤ maxInt64)

section signatures

variable (mac : Bytes → Bytes → Digest)

def signature (tsStr payload secret : Bytes) : Bytes := hex (mac secret (tsStr ++ 46 :: payload)).val

def signPayload (payload : Bytes) (ts : Int) (secret : Bytes) : Bytes × Bytes :=
  let tsStr := signed (unix ts)
  ([116,61] ++ tsStr ++ [44,118,49,61] ++ signature mac tsStr payload secret,tsStr)

def age (now reqTime : Int) : Int :=
  let diff := sub now reqTime
  if diff < 0 then int64 (-diff) else diff

def verifySignature (now : Int) (payload sigHeader secret : Bytes) (tolerance : Int) : Except Error Unit :=
  let tolerance := if tolerance ≤ 0 then defaultTimestampTolerance else tolerance
  let (tsStr,sigHex) := fields sigHeader
  if tsStr = [] ∨ sigHex = [] then .error .malformedSignature
  else
    match parseInt tsStr with
    | none => .error .invalidTimestamp
    | some tsUnix =>
      if tolerance < age now (unixTime tsUnix) then .error (.replayTimestampExpired (age now (unixTime tsUnix)) tolerance)
      else if sigHex ≠ signature mac tsStr payload secret then .error .signatureMismatch
      else .ok ()

end signatures

def Near (now tolerance t : Int) : Prop :=
  -tolerance ≤ now - (t + unixToInternal) * second ∧ now - (t + unixToInternal) * second ≤ tolerance

/-- Of all headers with this timestamp, those are accepted whose timestamp is near and whose
signature is the one of their timestamp text and payload, and among them all that were made
for it. -/
def Exact (now tolerance t : Int) : Prop :=
  (∀ mac payload header secret, parseInt (fields header).1 = some t →
    verifySignature mac now payload header secret tolerance = .ok () →
      Near now tolerance t ∧ (fields header).2 = signature mac (fields header).1 payload secret) ∧
  ∀ mac payload ts secret, unix ts = t → Near now tolerance t →
    verifySignature mac now payload (signPayload mac payload ts secret).1 secret tolerance = .ok ()

def Passes (now tolerance t : Int) : Prop :=
  age now (unixTime t) ≤ if tolerance ≤ 0 then defaultTimestampTolerance else tolerance

section acceptance

variable {mac : Bytes → Bytes → Digest}

lemma verifySignature_ok_iff {now tolerance : Int} {payload header secret : Bytes} :
    verifySignature mac now payload header secret tolerance = .ok () ↔
      (fields header).1 ≠ [] ∧ (fields header).2 ≠ [] ∧
        ∃ t,parseInt (fields header).1 = some t ∧ Passes now tolerance t ∧
          (fields header).2 = signature mac (fields header).1 payload secret := by
  unfold verifySignature Passes
  generalize fields header = found
  obtain ⟨tsStr,sigHex⟩ := found
  dsimp only
  by_cases blank : tsStr = [] ∨ sigHex = []
  · rw [if_pos blank]
    constructor
    · intro ok
      cases ok
    · rintro ⟨first,second,-⟩
      exact absurd blank (not_or.mpr ⟨first,second⟩)
  · rw [if_neg blank]
    rw [not_or] at blank
    cases parsed : parseInt tsStr with
    | none => simp
    | some t =>
      dsimp only
      by_cases late : (if tolerance ≤ 0 then defaultTimestampTolerance else tolerance) < age now (unixTime t)
      · rw [if_pos late]
        constructor
        · intro ok
          cases ok
        · rintro ⟨-,-,other,same,passes,-⟩
          cases same
          omega
      · rw [if_neg late]
        by_cases same : sigHex = signature mac tsStr payload secret
        · rw [if_neg (not_not.mpr same)]
          exact ⟨fun _ => ⟨blank.1,blank.2,t,rfl,Int.not_lt.mp late,same⟩,fun _ => rfl⟩
        · rw [if_pos same]
          constructor
          · intro ok
            cases ok
          · rintro ⟨-,-,_,-,-,equal⟩
            exact absurd equal same

variable (mac)

lemma signature_ne_nil (tsStr payload secret : Bytes) : signature mac tsStr payload secret ≠ [] := by
  intro none
  have length := (mac secret (tsStr ++ 46 :: payload)).property
  rw [signature] at none
  cases sum : (mac secret (tsStr ++ 46 :: payload)).val with
  | nil => simp [sum] at length
  | cons b rest =>
    rw [sum] at none
    cases none

lemma trimSpace_field {first : UInt8} {key value : Bytes} (visible : Visible first) (plain : ∀ b ∈ value,Plain b)
    (full : value ≠ []) : trimSpace (first :: key ++ value) = first :: key ++ value := by
  have last : (first :: key ++ value).getLast? = some (value.getLast full) := by
    rw [getLast?_append_of_ne_nil _ full,getLast?_eq_some_getLast full]
  exact trimSpace_visible rfl visible last (plain _ (getLast_mem full)).visible

lemma fields_signPayload (payload : Bytes) (ts : Int) (secret : Bytes) :
    fields (signPayload mac payload ts secret).1 = (signed (unix ts),signature mac (signed (unix ts)) payload secret) := by
  have comma : ¬Plain 44 := by decide
  have plain : ∀ b ∈ signed (unix ts),Plain b := fun b member => signed_plain member
  have plain' : ∀ b ∈ signature mac (signed (unix ts)) payload secret,Plain b := fun b member => hex_plain member
  have full := signed_ne_nil (unix ts)
  have full' := signature_ne_nil mac (signed (unix ts)) payload secret
  have header : (signPayload mac payload ts secret).1 =
      ([116,61] ++ signed (unix ts)) ++ 44 :: ([118,49,61] ++ signature mac (signed (unix ts)) payload secret) := by
    simp [signPayload]
  generalize signature mac (signed (unix ts)) payload secret = sig at *
  generalize signed (unix ts) = tsStr at *
  have free : 44 ∉ [116,61] ++ tsStr := by
    rw [mem_append,not_or]
    exact ⟨by decide,fun member => comma (plain 44 member)⟩
  have free' : 44 ∉ [118,49,61] ++ sig := by
    rw [mem_append,not_or]
    exact ⟨by decide,fun member => comma (plain' 44 member)⟩
  have time : assign ([],[]) ([116,61] ++ tsStr) = (tsStr,[]) := by
    rw [assign,trimSpace_field (by decide) plain full]
    rfl
  have sign : assign (tsStr,[]) ([118,49,61] ++ sig) = (tsStr,sig) := by
    rw [assign,trimSpace_field (by decide) plain' full']
    rfl
  rw [fields,header,splitOn_append_cons_self_of_not_mem free,splitOn_eq_singleton free',foldl_cons,
    foldl_cons,foldl_nil,time,sign]

lemma int64_range (n : Int) : minInt64 ≤ int64 n ∧ int64 n ≤ maxInt64 := by
  unfold int64 minInt64 maxInt64
  omega

lemma unix_unixTime {t : Int} (low : minInt64 ≤ t) (high : t ≤ maxInt64) : unix (unixTime t) = t := by
  unfold unix unixTime
  rw [Int.mul_ediv_cancel _ (by decide)]
  unfold int64 minInt64 unixToInternal
  unfold minInt64 at low
  unfold maxInt64 at high
  omega

lemma verifySignature_signPayload (now tolerance : Int) (payload : Bytes) (ts : Int) (secret : Bytes) :
    verifySignature mac now payload (signPayload mac payload ts secret).1 secret tolerance = .ok () ↔
      Passes now tolerance (unix ts) := by
  have range : minInt64 ≤ unix ts ∧ unix ts ≤ maxInt64 := int64_range _
  have parsed : parseInt (signed (unix ts)) = some (unix ts) := by
    rw [parseInt,parse_signed,Option.filter_some,if_pos (decide_eq_true range)]
  rw [verifySignature_ok_iff,fields_signPayload]
  constructor
  · rintro ⟨-,-,t,same,passes,-⟩
    rw [parsed] at same
    cases same
    exact passes
  · intro passes
    exact ⟨signed_ne_nil _,signature_ne_nil mac _ _ _,unix ts,parsed,passes,rfl⟩

end acceptance

lemma exact_iff_passes {now tolerance t : Int} (low : minInt64 ≤ t) (high : t ≤ maxInt64) :
    Exact now tolerance t ↔ (Passes now tolerance t ↔ Near now tolerance t) := by
  constructor
  · rintro ⟨sound,complete⟩
    let zeros : Bytes → Bytes → Digest := fun _ _ => ⟨List.replicate 64 0,length_replicate⟩
    have made := verifySignature_signPayload zeros now tolerance [] (unixTime t) []
    have back := unix_unixTime low high
    rw [back] at made
    constructor
    · intro passes
      have parsed : parseInt (fields (signPayload zeros [] (unixTime t) []).1).1 = some t := by
        rw [fields_signPayload,back,parseInt,parse_signed,Option.filter_some,if_pos (decide_eq_true ⟨low,high⟩)]
      exact (sound zeros [] _ [] parsed (made.mpr passes)).1
    · intro near
      exact made.mp (complete zeros [] (unixTime t) [] back near)
  · intro same
    constructor
    · intro mac payload header secret parsed accepted
      obtain ⟨-,-,other,parsed',passes,equal⟩ := verifySignature_ok_iff.mp accepted
      rw [parsed] at parsed'
      cases parsed'
      exact ⟨same.mp passes,equal⟩
    · rintro mac payload ts secret rfl near
      exact (verifySignature_signPayload mac now tolerance payload ts secret).mpr (same.mpr near)

/-- The timestamp is less than 2^63 nanoseconds ahead, and with the greatest tolerance also
less than that behind. A tolerance that is not positive, and so stands for the default, does
no harm only if the timestamp is not within the default or is exactly now. A timestamp whose
seconds from the zero time do not fit into 64 bits is read as one of 2^64 seconds earlier. -/
def Agrees (now tolerance t : Int) : Prop :=
  let distance := now - (t + unixToInternal) * second
  if t ≤ maxInt64 - unixToInternal then
    if 0 < tolerance then minInt64 < distance ∧ (tolerance = maxInt64 → distance ≤ maxInt64)
    else
      tolerance = 0 ∧ distance = 0 ∨
        minInt64 < distance ∧ (distance < -defaultTimestampTolerance ∨ defaultTimestampTolerance < distance)
  else
    let earlier := distance + 18446744073709551616 * second
    if tolerance = maxInt64 then -maxInt64 ≤ distance ∧ distance ≤ maxInt64
    else
      (distance < -tolerance ∨ tolerance < distance) ∧ minInt64 < earlier ∧
        if 0 < tolerance then earlier < -tolerance ∨ tolerance < earlier
        else earlier < -defaultTimestampTolerance ∨ defaultTimestampTolerance < earlier

lemma age_eq (now reqTime : Int) : age now reqTime = if now - reqTime ≤ minInt64 then minInt64
      else if now - reqTime < 0 then reqTime - now else if now - reqTime ≤ maxInt64 then now - reqTime
      else maxInt64 := by
  unfold age sub int64 minInt64 maxInt64
  dsimp only
  split_ifs <;> omega

lemma unixTime_eq {t : Int} (low : minInt64 ≤ t) (high : t ≤ maxInt64) : unixTime t =
      if t ≤ maxInt64 - unixToInternal then (t + unixToInternal) * second
      else (t + unixToInternal - 18446744073709551616) * second := by
  unfold minInt64 at low
  unfold maxInt64 at high
  unfold unixTime int64 minInt64 maxInt64 unixToInternal second
  split_ifs <;> omega

/-- For every instant, tolerance and timestamp that fit into 64 bits, exactly the headers are
accepted that should be if and only if the condition holds. -/
theorem exact_iff_agrees {now tolerance t : Int} (now_low : minInt64 * second ≤ now) (now_high : now < (maxInt64 + 1) * second)
    (tolerance_low : minInt64 ≤ tolerance) (tolerance_high : tolerance ≤ maxInt64) (low : minInt64 ≤ t) (high : t ≤ maxInt64) :
    Exact now tolerance t ↔ Agrees now tolerance t := by
  rw [exact_iff_passes low high,Passes,Near,Agrees,age_eq,unixTime_eq low high]
  unfold defaultTimestampTolerance
  unfold minInt64 maxInt64 second unixToInternal at *
  split_ifs <;> omega

/-- A timestamp two hundred seconds old, with a tolerance of five minutes. -/
theorem exact_in_2024 : Exact ((1704067200 + unixToInternal) * second) (300 * second) 1704067000 :=
  (exact_iff_agrees (by decide) (by decide) (by decide) (by decide) (by decide) (by decide)).mpr (by
    unfold Agrees
    decide)

/-- A timestamp four hundred years ahead is accepted with a tolerance of a minute. -/
theorem future_accepted : ¬Exact ((1704067200 + unixToInternal) * second) (60 * second) 14326934400 := by
  rintro ⟨sound,-⟩
  let zeros : Bytes → Bytes → Digest := fun _ _ => ⟨List.replicate 64 0,length_replicate⟩
  let header := (signPayload zeros [] (unixTime 14326934400) []).1
  have parsed : parseInt (fields header).1 = some 14326934400 := by decide +kernel
  have accepted : verifySignature zeros ((1704067200 + unixToInternal) * second) [] header [] (60 * second) = .ok () := by
    decide +kernel
  have near := (sound zeros [] header [] parsed accepted).1
  revert near
  unfold Near
  decide

end Tempest.WebhookSigner
