import Tempest.Lib.Calendar
import Tempest.Patch
import Tempest.Validation

/-! The cron expressions of `internal/cronengine`: their parser, and the search for the
next time in UTC. Instants are counted in nanoseconds from the zero time, the beginning
of the year 1; within the search all of them are whole minutes and counted as such. -/
namespace Tempest.Cron
open Deltadiff Validation

abbrev CronField := UInt64

def bit (i : Int) : CronField := if 0 ≤ i ∧ i < 64 then 1 <<< UInt64.ofNat i.toNat else 0

def CronField.matchesValue (cf : CronField) (val : Int) : Bool :=
  if val < 0 ∨ 63 < val then false else cf &&& bit val ≠ 0

structure Expression where
  minutes : CronField
  hours : CronField
  dom : CronField
  months : CronField
  dow : CronField
  deriving DecidableEq

inductive FieldError
  | stepFormat (part : Str)
  | stepValue (text : Str)
  | rangeFormat (text : Str)
  | rangeStart (text : Str)
  | rangeEnd (text : Str)
  | valueBounds (min max : Int) (text : Str)
  deriving DecidableEq

def FieldError.text : FieldError → String
  | .stepFormat part => "invalid step format: " ++ String.ofList part
  | .stepValue text => "invalid step value: " ++ String.ofList text
  | .rangeFormat text => "invalid range format: " ++ String.ofList text
  | .rangeStart text => "range start out of bounds: " ++ String.ofList text
  | .rangeEnd text => "range end out of bounds: " ++ String.ofList text
  | .valueBounds min max text => "value out of bounds [" ++ toString min ++ "-" ++ toString max ++ "]: " ++ String.ofList text

inductive ParseError
  | fieldCount (n : Nat)
  | field (name : String) (err : FieldError)
  deriving DecidableEq

def ParseError.text : ParseError → String
  | .fieldCount n => "cronengine: invalid cron expression: expected 5 fields, got " ++ toString n
  | .field name err => "cronengine: invalid cron expression (" ++ name ++ "): " ++ err.text

def trimSpace (text : Str) : Str := ((text.dropWhile isSpace).reverse.dropWhile isSpace).reverse

def fields (spec : Str) : List Str := (spec.splitOnP isSpace).filter (· ≠ [])

def atoi (text : Str) : Option Int :=
  (Deltadiff.atoi text).filter (fun n => -9223372036854775808 ≤ n ∧ n ≤ 9223372036854775807)

def stepOf (part : Str) : Except FieldError (Int × Str) :=
  if '/' ∈ part then
    match part.splitOn '/' with
    | [range,text] =>
      match atoi text with
      | some step => if step ≤ 0 then .error (.stepValue text) else .ok (step,range)
      | none => .error (.stepValue text)
    | _ => .error (.stepFormat part)
  else .ok (1,part)

def boundsOf (rangeStr : Str) (min max : Int) : Except FieldError (Int × Int) :=
  if rangeStr = ['*'] then .ok (min,max)
  else if '-' ∈ rangeStr then
    match rangeStr.splitOn '-' with
    | [first,last] =>
      match atoi first with
      | some start =>
        if start < min ∨ max < start then .error (.rangeStart first)
        else
          match atoi last with
          | some stop => if stop < min ∨ max < stop ∨ stop < start then .error (.rangeEnd last) else .ok (start,stop)
          | none => .error (.rangeEnd last)
      | none => .error (.rangeStart first)
    | _ => .error (.rangeFormat rangeStr)
  else
    match atoi rangeStr with
    | some val => if val < min ∨ max < val then .error (.valueBounds min max rangeStr) else .ok (val,val)
    | none => .error (.valueBounds min max rangeStr)

def fill (stop step : Int) : Nat → Int → CronField → CronField
  | 0,_,field => field
  | fuel + 1,i,field =>
    if i ≤ stop then fill stop step fuel ((i + step).bmod 18446744073709551616) (field ||| bit i) else field

def rounds : Nat := 128

def parsePart (min max : Int) (field : CronField) (part : Str) : Except FieldError CronField := do
  let (step,rangeStr) ← stepOf (trimSpace part)
  let (start,stop) ← boundsOf rangeStr min max
  return fill stop step rounds start field

def parseField (f : Str) (min max : Int) : Except FieldError CronField :=
  (f.splitOn ',').foldlM (parsePart min max) 0

def parseNamed (name : String) (f : Str) (min max : Int) : Except ParseError CronField :=
  (parseField f min max).mapError (.field name)

def parseExpression (spec : Str) : Except ParseError Expression :=
  match fields spec with
  | [min,hr,dom,mon,dow] => do
    let min ← parseNamed "minute" min 0 59
    let hr ← parseNamed "hour" hr 0 23
    let dom ← parseNamed "day of month" dom 1 31
    let mon ← parseNamed "month" mon 1 12
    let dow ← parseNamed "day of week" dow 0 6
    return ⟨min,hr,dom,mon,dow⟩
  | parts => .error (.fieldCount parts.length)

section Clock

variable (t : Int)

def year : Int := Calendar.year (t / 1440)

def month : Int := Calendar.month (t / 1440)

def day : Int := Calendar.day (t / 1440)

def weekday : Int := Calendar.weekday (t / 1440)

def hour : Int := t % 1440 / 60

def minute : Int := t % 60

end Clock

def date (year month day hour minute : Int) : Int := Calendar.ofDate year month day * 1440 + hour * 60 + minute

def nextFrom (e : Expression) (limit : Int) : Nat → Int → Int
  | 0,_ => 0
  | fuel + 1,t =>
    if t < limit then
      if !e.months.matchesValue (month t) then nextFrom e limit fuel (date (year t) (month t + 1) 1 0 0)
      else if !e.dom.matchesValue (day t) || !e.dow.matchesValue (weekday t) then
        nextFrom e limit fuel (date (year t) (month t) (day t + 1) 0 0)
      else if !e.hours.matchesValue (hour t) then nextFrom e limit fuel (date (year t) (month t) (day t) (hour t + 1) 0)
      else if !e.minutes.matchesValue (minute t) then nextFrom e limit fuel (t + 1)
      else t
    else 0

def minuteLength : Int := 60000000000

def following (after : Time) : Int := after / minuteLength + 1

def limit (t : Int) : Int := date (year t + 5) (month t) (day t) (hour t) (minute t)

def next (e : Expression) (after : Time) : Time :=
  let t := following after
  nextFrom e (limit t) (limit t - t).toNat t * minuteLength

end Tempest.Cron
