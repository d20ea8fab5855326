import DomTemplate.Bytes

/-! Floating-point numbers of 64 bits. A number is read as the one nearest to a fraction, and
written with the fewest digits that give it back. -/

namespace DomTemplate.Yaml
open Ascii

inductive Binary64 where
  /-- The number `m * 2 ^ e`, or its negative. Numbers have 53 bits, but for small ones,
  whose exponent is the least. -/
  | finite (negative : Bool) (m : Nat) (e : Int)
  | infinite (negative : Bool)
  | notNumber
  deriving DecidableEq, Repr

namespace Binary64

/-- The quotient rounded to the nearest integer, a half to the even one. -/
def roundDiv (n d : Nat) : Nat :=
  let q := n / d
  if 2 * (n % d) < d then q else if d < 2 * (n % d) then q + 1 else q + q % 2

/-- The least number of 53 bits. -/
def leastMantissa : Nat := 0x10000000000000

def leastExponent : Int := -1074

def greatestExponent : Int := 971

/-- How often `2 ^ e` goes into the fraction `n / d`, as a fraction. -/
def share (n d : Nat) (e : Int) : Nat × Nat := (n <<< (-e).toNat, d <<< e.toNat)

/-- The number nearest to the fraction `n / d`, or to its negative. -/
def nearest (negative : Bool) (n d : Nat) : Binary64 :=
  if n = 0 then .finite negative 0 leastExponent
  else
    let guess : Int := (n.log2 : Int) - d.log2 - 52
    let (a, b) := share n d guess
    let e := max leastExponent (if a < b * leastMantissa then guess - 1 else guess)
    let (a, b) := share n d e
    let m := roundDiv a b
    let (m, e) := if m = 2 * leastMantissa then (leastMantissa, e + 1) else (m, e)
    if greatestExponent < e then .infinite negative else .finite negative m e

/-- The least `n` with `m * 2 ^ e < 10 ^ n`; no number is so small that it would vanish in
330 places. -/
def magnitude (m : Nat) (e : Int) : Int :=
  let (a, b) := share (m * Nat.pow 10 330) 1 (-e)
  ((Bytes.decimal (a / b)).length : Int) - 330

/-- Factors that turn quarters of `2 ^ e` and multiples of `10 ^ k` into numbers of one scale. -/
def commonScale (e k : Int) : Nat × Nat :=
  (Nat.pow 10 (-k).toNat <<< (e - 2).toNat, Nat.pow 10 k.toNat <<< (2 - e).toNat)

/-- The decimal `c * 10 ^ k` is read as `m * 2 ^ e`: it lies between the middles to the
neighbours of that, or on one if `m` is even. Below a power of two numbers are closer. -/
def isReadAs (m : Nat) (e : Int) (c : Nat) (k : Int) : Bool :=
  let (quarter, step) := commonScale e k
  let low := (if m = leastMantissa && leastExponent < e then 4 * m - 1 else 4 * m - 2) * quarter
  let high := (4 * m + 2) * quarter
  (low < c * step && c * step < high) || (m % 2 = 0 && (c * step = low || c * step = high))

/-- The multiple of `10 ^ k` that is read as `m * 2 ^ e` and nearest to it. -/
def multiple? (m : Nat) (e k : Int) : Option Nat :=
  let (quarter, step) := commonScale e k
  let c := 4 * m * quarter / step
  match isReadAs m e c k, isReadAs m e (c + 1) k with
  | true, true => some (if 8 * m * quarter ≤ (2 * c + 1) * step then c else c + 1)
  | true, false => some c
  | false, true => some (c + 1)
  | false, false => none

/-- The coarsest decimal from `10 ^ k` on that is read as `m * 2 ^ e`. -/
def shortestFrom (m : Nat) (e : Int) : (places : Nat) → (k : Int) → Nat × Int
  | 0, k => (m, k)
  | places + 1, k =>
    match multiple? m e k with
    | some c => (c, k)
    | none => shortestFrom m e places (k - 1)

/-- The number `c * 10 ^ k` with the fewest digits that is read as `m * 2 ^ e`; 17 digits are
always enough. -/
def shortest (m : Nat) (e : Int) : Nat × Int := shortestFrom m e 17 (magnitude m e - 1)

/-- The digits of a decimal whose point stands behind the first `point` of them. -/
def positional (digits : Bytes) (point : Int) : Bytes :=
  if point ≤ 0 then utf8 "0." ++ Bytes.replicate (-point).toNat zero ++ digits
  else
    let n := point.toNat
    digits.take n ++ Bytes.replicate (n - digits.length) zero ++
      (if n < digits.length then dot :: digits.drop n else [])

/-- The digits of a decimal with the point behind the first, and the power of ten, which has
two digits or more. -/
def scientific (digits : Bytes) (exponent : Int) : Bytes :=
  let power := Bytes.decimal exponent.natAbs
  digits.take 1 ++ (if 1 < digits.length then dot :: digits.drop 1 else []) ++
    utf8 (if exponent < 0 then "e-" else "e+") ++
    (if power.length < 2 then zero :: power else power)

/-- The text of a number, with a power of ten if it is large or small. -/
def render : Binary64 → Bytes
  | notNumber => utf8 "NaN"
  | infinite negative => utf8 (if negative then "-Inf" else "+Inf")
  | finite negative m e =>
    let (c, k) := shortest m e
    let point : Int := (Bytes.decimal c).length + k
    let digits := Bytes.dropWhileRight (· == zero) (Bytes.decimal c)
    (if negative then [dash] else []) ++
      (if m = 0 then [zero]
      else if point < -3 || 6 < point then scientific digits (point - 1)
      else positional digits point)

end Binary64
end DomTemplate.Yaml
