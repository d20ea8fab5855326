import DomTemplate.Bytes

/-! Base 64 with the standard alphabet and full padding; line breaks are passed over. -/

namespace DomTemplate.Base64
open Ascii

def value? (b : UInt8) : Option Nat :=
  if isUpper b then some (b.toNat - 0x41)
  else if isLower b then some (b.toNat - 0x61 + 26)
  else if isDigit b then some (b.toNat - 0x30 + 52)
  else if b = plus then some 62
  else if b = slash then some 63
  else none

/-- The octets of four digits, of which the last one or two may be padding. -/
def quantum? (a b c d : UInt8) : Option Bytes := do
  let x ← value? a
  let y ← value? b
  let first := (x * 4 + y / 16).toUInt8
  if c = equals then
    if d = equals then return [first] else none
  else
    let z ← value? c
    let second := (y % 16 * 16 + z / 4).toUInt8
    if d = equals then return [first, second]
    else
      let w ← value? d
      return [first, second, (z % 4 * 64 + w).toUInt8]

def decodeDigits? : Bytes → Option Bytes
  | [] => some []
  | a :: b :: c :: d :: rest => do
    let octets ← quantum? a b c d
    if d = equals && !rest.isEmpty then none else return octets ++ (← decodeDigits? rest)
  | _ => none

def decode? (s : Bytes) : Option Bytes := decodeDigits? (s.filter fun b => b != lf && b != cr)

end DomTemplate.Base64
