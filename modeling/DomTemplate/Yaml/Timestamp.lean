import DomTemplate.Bytes

/-! Timestamps: a date, or a date and a time of day. -/

namespace DomTemplate.Yaml
open Ascii

inductive TimeZone where
  | utc
  /-- The zone of the clock, which is taken to be no hours away. -/
  | here
  /-- A zone that is so many seconds ahead. -/
  | ahead (seconds : Int)
  deriving DecidableEq, Repr

structure TimeOfDay where
  hour : Nat := 0
  minute : Nat := 0
  second : Nat := 0
  nanosecond : Nat := 0
  deriving DecidableEq, Repr

structure Timestamp where
  year : Nat
  month : Nat
  day : Nat
  time : TimeOfDay := {}
  zone : TimeZone := .utc
  deriving DecidableEq, Repr

namespace Timestamp

/-- A number of one or two digits, and what follows it. -/
def number? : Bytes → Option (Nat × Bytes)
  | a :: b :: rest =>
    if !isDigit a then none
    else if isDigit b then some (10 * (a.toNat - 0x30) + (b.toNat - 0x30), rest)
    else some (a.toNat - 0x30, b :: rest)
  | [a] => if isDigit a then some (a.toNat - 0x30, []) else none
  | [] => none

/-- What follows the byte `b`. -/
def skip? (b : UInt8) (s : Bytes) : Option Bytes := Bytes.dropPrefix? [b] s

def isLeap (year : Nat) : Bool := year % 4 = 0 && (year % 100 ≠ 0 || year % 400 = 0)

def daysIn (year month : Nat) : Nat :=
  if month = 2 then if isLeap year then 29 else 28
  else if month = 4 || month = 6 || month = 9 || month = 11 then 30
  else 31

/-- A date with a year of four digits, and what follows it. -/
def date? (s : Bytes) : Option (Timestamp × Bytes) := do
  let year ← Bytes.digits? (s.take 4)
  let (month, s) ← number? (← skip? dash (s.drop 4))
  let (day, s) ← number? (← skip? dash s)
  if 1 ≤ month && month ≤ 12 && 1 ≤ day && day ≤ daysIn year month then
    some ({ year, month, day }, s)
  else none

/-- The nanoseconds of a fraction of a second, which may be missing, and what follows it. -/
def fraction : Bytes → Nat × Bytes
  | a :: b :: rest =>
    if (a = dot || a = comma) && isDigit b then
      let digits := ((b :: rest).takeWhile isDigit).take 9
      ((Bytes.digits? (digits ++ Bytes.replicate (9 - digits.length) zero)).getD 0,
        rest.dropWhile isDigit)
    else (0, a :: b :: rest)
  | s => (0, s)

/-- A time of day, and what follows it. -/
def time? (s : Bytes) : Option (TimeOfDay × Bytes) := do
  let (hour, s) ← number? s
  let (minute, s) ← number? (← skip? colon s)
  let (second, s) ← number? (← skip? colon s)
  if hour < 24 && minute < 60 && second < 60 then
    let (nanosecond, s) := fraction s
    some ({ hour, minute, second, nanosecond }, s)
  else none

/-- A time zone: `Z`, or a sign, hours and minutes. -/
def zone? (s : Bytes) : Option TimeZone :=
  match s with
  | [z] => if z = 0x5A then some .utc else none
  | [sign, a, b, sep, c, d] => do
    let hours ← Bytes.digits? [a, b]
    let minutes ← Bytes.digits? [c, d]
    if (sign = plus || sign = dash) && sep = colon && hours ≤ 24 && minutes ≤ 60 then
      let seconds : Int := 3600 * hours + 60 * minutes
      some (if seconds = 0 then .here else .ahead (if sign = dash then -seconds else seconds))
    else none
  | _ => none

/-- The timestamp in the text `s`. -/
def ofText? (s : Bytes) : Option Timestamp := do
  if (s.takeWhile isDigit).length ≠ 4 then none
  else
    let (date, rest) ← date? s
    match rest with
    | [] => some date
    | c :: rest =>
      if c = 0x54 || c = 0x74 then
        let (time, rest) ← time? rest
        some { date with time, zone := ← zone? rest }
      else if c = space then
        let (time, rest) ← time? (rest.dropWhile (· == space))
        if rest.isEmpty then some { date with time } else none
      else none

/-- Two timestamps are the same as keys. Zones that are not whole hours ahead are all
different. -/
def isSame (a b : Timestamp) : Bool :=
  a == b && match a.zone with
    | .utc | .here => true
    | .ahead seconds => seconds % 3600 = 0 && -12 * 3600 ≤ seconds && seconds ≤ 14 * 3600

def monthNames : List Bytes :=
  [utf8 "January", utf8 "February", utf8 "March", utf8 "April", utf8 "May", utf8 "June",
   utf8 "July", utf8 "August", utf8 "September", utf8 "October", utf8 "November",
   utf8 "December"]

end Timestamp

def TimeZone.render : TimeZone → Bytes
  | utc => utf8 "time.UTC"
  | here => utf8 "time.Local"
  | ahead _ => utf8 "time.Location(\"\")"

/-- The text of a timestamp, part by part. -/
def Timestamp.render (t : Timestamp) : Bytes :=
  utf8 "time.Date(" ++ Bytes.join (utf8 ", ")
    [Bytes.decimal t.year, utf8 "time." ++ monthNames.getD (t.month - 1) [],
     Bytes.decimal t.day, Bytes.decimal t.time.hour, Bytes.decimal t.time.minute,
     Bytes.decimal t.time.second, Bytes.decimal t.time.nanosecond, t.zone.render] ++ utf8 ")"

end DomTemplate.Yaml
