import DomTemplate.Text.CodePoint
import DomTemplate.Markup.Entity.Names

/-! Character references in text. A numeric reference is read in 32-bit two's
complement, so that a long one wraps around; a named reference may lack its
semicolon, and then the longest name of at most six bytes that starts there counts.
A reference that stands for nothing is kept as written. -/

namespace DomTemplate.Markup.Entity
open Ascii

/-- Characters meant by the numbers 0x80 to 0x9F, which name Windows-1252 bytes. -/
def windows1252 : List CodePoint :=
  [0x20AC, 0x81, 0x201A, 0x0192, 0x201E, 0x2026, 0x2020, 0x2021, 0x02C6, 0x2030, 0x0160, 0x2039,
   0x0152, 0x8D, 0x017D, 0x8F, 0x90, 0x2018, 0x2019, 0x201C, 0x201D, 0x2022, 0x2013, 0x2014,
   0x02DC, 0x2122, 0x0161, 0x203A, 0x0153, 0x9D, 0x017E, 0x0178]

/-- The digits of a number in the given base and what follows them. The value is kept
modulo 2^32. -/
def number (digit? : UInt8 → Option Nat) (base : Nat) : (value : Nat) → Bytes → Nat × Bytes
  | value, [] => (value, [])
  | value, b :: rest =>
    match digit? b with
    | some d => number digit? base ((base * value + d) % 0x100000000) rest
    | none => (value, b :: rest)

def decimalDigit? (b : UInt8) : Option Nat := if isDigit b then some (b.toNat - 0x30) else none

/-- The character meant by a number; values from 2^31 on are negative. -/
def ofNumber (n : Nat) : CodePoint :=
  if 0x80 ≤ n ∧ n ≤ 0x9F then windows1252.getD (n - 0x80) CodePoint.replacement
  else if n = 0 then CodePoint.replacement
  else if CodePoint.isScalar n then n
  else CodePoint.replacement

/-- Read the digits `body` that follow `#` (or `#x`) and an optional semicolon; `width`
counts the bytes before the digits. The reference counts if, semicolon included, it
is longer than three bytes. -/
def numeric? (hex : Bool) (width : Nat) (body : Bytes) : Option (Bytes × Bytes) :=
  let (value, rest) :=
    if hex then number hexValue? 16 0 body else number decimalDigit? 10 0 body
  let rest := if rest.head? = some semicolon then rest.drop 1 else rest
  if width + body.length - rest.length ≤ 3 then none
  else some (CodePoint.encode (ofNumber value), rest)

def lookup? (name : Bytes) : Option Bytes :=
  let key := String.ofList (name.map fun b => Char.ofNat b.toNat)
  (names.find? fun entry => entry.1 == key).map fun entry => entry.2.flatMap CodePoint.encode

/-- The longest name that needs no semicolon has six bytes. -/
def longestBare : Nat := 6

/-- The longest reference without a semicolon, of two to `n` bytes, that `name`
starts with: what it stands for and its length. -/
def bare? (name : Bytes) : (n : Nat) → Option (Bytes × Nat)
  | 0 => none
  | 1 => none
  | n + 2 =>
    match lookup? (name.take (n + 2)) with
    | some text => some (text, n + 2)
    | none => bare? name (n + 1)

/-- Letters and digits of a name, with the semicolon that ends it. -/
def nameOf (s : Bytes) : Bytes :=
  let letters := s.takeWhile isAlphanumeric
  if (s.drop letters.length).head? = some semicolon then letters ++ [semicolon] else letters

/-- A numeric reference in `body`, the text after an ampersand and `#`: what it stands for
and what is left. A capital or small x announces hexadecimal digits. -/
def numericReference? (body : Bytes) : Option (Bytes × Bytes) :=
  match body with
  | a :: _ :: _ =>
    if Ascii.lower a = lowerX then numeric? true 3 (body.drop 1) else numeric? false 2 body
  | _ => none

/-- A named reference in `rest`, the text after an ampersand: what it stands for and the
bytes of `rest` that it takes. -/
def namedReference? (rest : Bytes) : Option (Bytes × Nat) :=
  let name := nameOf rest
  if name.isEmpty then none
  else match lookup? name with
    | some text => some (text, name.length)
    | none => bare? name (min (name.length - 1) longestBare)

/-- The reference that follows an ampersand, and the bytes that it takes. -/
def reference? (rest : Bytes) : Option (Bytes × Nat) :=
  if rest.head? = some sharp then
    (numericReference? (rest.drop 1)).map fun (text, after) => (text, rest.length - after.length)
  else namedReference? rest

/-- How far a failed reference is copied before the search goes on: its name, or only
the ampersand if it is numeric. -/
def skipped (rest : Bytes) : Nat :=
  if rest.head? = some sharp then 0 else (nameOf rest).length

/-- Decode `s`, of which the first `drop` bytes belong to a reference already replaced
and the next `keep` bytes are copied unseen. -/
def decodeFrom : (drop keep : Nat) → Bytes → Bytes
  | _, _, [] => []
  | drop + 1, keep, _ :: rest => decodeFrom drop keep rest
  | 0, keep + 1, c :: rest => c :: decodeFrom 0 keep rest
  | 0, 0, c :: rest =>
    if c = amp then
      match reference? rest with
      | some (text, width) => text ++ decodeFrom width 0 rest
      | none => c :: decodeFrom 0 (skipped rest) rest
    else c :: decodeFrom 0 0 rest

/-- `s` with its character references replaced by what they stand for. -/
def decode (s : Bytes) : Bytes := decodeFrom 0 0 s

end DomTemplate.Markup.Entity
