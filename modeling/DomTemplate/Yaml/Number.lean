import DomTemplate.Yaml.Number.Binary64

/-! Numbers in plain scalars. A number that is too large is none. -/

namespace DomTemplate.Yaml.Number
open Ascii

/-- The value of a digit in bases up to 36. -/
def digit? (b : UInt8) : Option Nat :=
  if isDigit b then some (b.toNat - 0x30)
  else if isLetter b then some ((Ascii.lower b).toNat - 0x61 + 10)
  else none

/-- The number that digits of a base write. -/
def natural? (base : Nat) (s : Bytes) : Option Nat :=
  if s.isEmpty then none
  else s.foldl (fun n b => do
    let d ← digit? b
    if d < base then some (base * (← n) + d) else none) (some 0)

/-- The base that the start of a number tells, and its digits. -/
def baseOf (s : Bytes) : Nat × Bytes :=
  match s with
  | z :: x :: rest =>
    if z ≠ zero then (10, s)
    else
      let c := Ascii.lower x
      if c = 0x62 && !rest.isEmpty then (2, rest)
      else if c = 0x6F && !rest.isEmpty then (8, rest)
      else if c = 0x78 && !rest.isEmpty then (16, rest)
      else (8, x :: rest)
  | _ => (10, s)

/-- The sign of a number and the rest of it. -/
def sign (s : Bytes) : Option Bool × Bytes :=
  match s with
  | c :: rest =>
    if c = plus then (some true, rest) else if c = dash then (some false, rest) else (none, s)
  | [] => (none, s)

/-- A number without a sign fits into 64 bits, one with a sign into 63. -/
def fits (sign : Option Bool) (n : Nat) : Bool :=
  match sign with
  | none => n < 2 * Bytes.signedLimit
  | some true => n < Bytes.signedLimit
  | some false => n ≤ Bytes.signedLimit

/-- The integer with the given sign. -/
def withSign (sign : Option Bool) (n : Nat) : Int := if sign = some false then -n else n

/-- The signed integer that digits of a base write. -/
def signed? (sign : Option Bool) (base : Nat) (digits : Bytes) : Option Int := do
  let n ← natural? base digits
  if fits sign n then some (withSign sign n) else none

/-- The integer in the base that the start of `s` tells. -/
def plainInteger? (s : Bytes) : Option Int :=
  let (sign, digits) := sign s
  let (base, digits) := baseOf digits
  signed? sign base digits

/-- The integer behind a base mark, where its sign may also stand. -/
def markedInteger? (s : Bytes) : Option Int :=
  [(utf8 "0b", 2), (utf8 "0o", 8)].findSome? fun (mark, base) =>
    match Bytes.dropPrefix? mark s with
    | some rest =>
      let (sign, digits) := sign rest
      signed? sign base digits
    | none => (Bytes.dropPrefix? (dash :: mark) s).bind (signed? (some false) base)

/-- The digits before and after the point, and the exponent, of a decimal. -/
structure Decimal where
  whole : Bytes
  fraction : Bytes
  exponent : Int

/-- An exponent after its mark: a sign and digits. -/
def exponent? (s : Bytes) : Option Int := Bytes.signed? s

/-- The parts of a decimal that has a digit; `s` is without a sign. -/
def decimal? (s : Bytes) : Option Decimal :=
  let whole := s.takeWhile isDigit
  let rest := s.drop whole.length
  let (fraction, rest) := match rest with
    | c :: tail => if c = dot then (tail.takeWhile isDigit, tail.dropWhile isDigit) else ([], rest)
    | [] => ([], [])
  if whole.isEmpty && fraction.isEmpty then none
  else match rest with
    | [] => some ⟨whole, fraction, 0⟩
    | e :: tail =>
      if e = 0x65 || e = 0x45 then (exponent? tail).map fun n => ⟨whole, fraction, n⟩ else none

/-- The number that a decimal writes, unless it is too large. -/
def Decimal.value? (negative : Bool) (d : Decimal) : Option Binary64 :=
  let mantissa := (Bytes.digits? (d.whole ++ d.fraction)).getD 0
  let scale := d.exponent - d.fraction.length
  let size := (Bytes.decimal mantissa).length + scale
  if mantissa = 0 || size < -400 then some (.nearest negative 0 1)
  else if 400 < size then none
  else match Binary64.nearest negative (mantissa * Nat.pow 10 scale.toNat)
      (Nat.pow 10 (-scale).toNat) with
    | .infinite _ => none
    | x => some x

/-- The number of a decimal with an optional sign; underscores have been left out. -/
def decimalValue? (s : Bytes) : Option Binary64 :=
  let (sign, rest) := sign s
  (decimal? rest).bind (Decimal.value? (sign = some false))

/-- Underscores stand between digits only. `digit` says that a digit comes before. -/
def separates (digit : Bool) : Bytes → Bool
  | [] => true
  | b :: rest =>
    if b = underscore then digit && rest.head?.any isDigit && separates false rest
    else separates (isDigit b) rest

/-- The number of a decimal that starts with its point; underscores may separate its digits. -/
def fraction? (s : Bytes) : Option Binary64 :=
  if separates false s then decimalValue? (s.filter (· != underscore)) else none

end DomTemplate.Yaml.Number
