import DomTemplate.Text.Printable

/-! Double-quoted form of a text for messages and dumps: printable characters stand
for themselves, control characters get their short or hexadecimal escape, other
characters their code point, and a byte that belongs to no character `\x` and its
two digits. The form therefore holds no line break and determines the text. -/

namespace DomTemplate
open Ascii

/-- The letter of a short escape, for the characters that have one. -/
def shortEscape? (r : CodePoint) : Option Char :=
  if r = 0x07 then some 'a'
  else if r = 0x08 then some 'b'
  else if r = 0x0C then some 'f'
  else if r = 0x0A then some 'n'
  else if r = 0x0D then some 'r'
  else if r = 0x09 then some 't'
  else if r = 0x0B then some 'v'
  else none

def TextUnit.quoted : TextUnit → Bytes
  | .stray b => backslash :: lowerX :: hexDigits 2 b.toNat
  | .codePoint r =>
    if r = quote.toNat ∨ r = backslash.toNat then backslash :: CodePoint.encode r
    else if CodePoint.isPrintable r then CodePoint.encode r
    else match shortEscape? r with
      | some c => [backslash, c.toNat.toUInt8]
      | none =>
        if r < 0x20 ∨ r = 0x7F then backslash :: lowerX :: hexDigits 2 r
        else if r < 0x10000 then utf8 "\\u" ++ hexDigits 4 r
        else utf8 "\\U" ++ hexDigits 8 r

def Bytes.quoted (s : Bytes) : Bytes :=
  quote :: s.units.flatMap TextUnit.quoted ++ [quote]

end DomTemplate
