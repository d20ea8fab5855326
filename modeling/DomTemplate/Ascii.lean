/-! Names for the bytes that markup, code delimiters and literals turn on, and
the byte classes built from them. -/

namespace DomTemplate.Ascii

abbrev nul : UInt8 := 0x00
abbrev tab : UInt8 := 0x09
abbrev lf : UInt8 := 0x0A
abbrev vt : UInt8 := 0x0B
abbrev ff : UInt8 := 0x0C
abbrev cr : UInt8 := 0x0D
abbrev space : UInt8 := 0x20
abbrev bang : UInt8 := 0x21
abbrev quote : UInt8 := 0x22
abbrev sharp : UInt8 := 0x23
abbrev percent : UInt8 := 0x25
abbrev amp : UInt8 := 0x26
abbrev apostrophe : UInt8 := 0x27
abbrev star : UInt8 := 0x2A
abbrev plus : UInt8 := 0x2B
abbrev comma : UInt8 := 0x2C
abbrev dash : UInt8 := 0x2D
abbrev dot : UInt8 := 0x2E
abbrev slash : UInt8 := 0x2F
abbrev zero : UInt8 := 0x30
abbrev colon : UInt8 := 0x3A
abbrev semicolon : UInt8 := 0x3B
abbrev lt : UInt8 := 0x3C
abbrev equals : UInt8 := 0x3D
abbrev gt : UInt8 := 0x3E
abbrev question : UInt8 := 0x3F
abbrev backslash : UInt8 := 0x5C
abbrev underscore : UInt8 := 0x5F
abbrev backtick : UInt8 := 0x60
abbrev lowerX : UInt8 := 0x78
abbrev lbrace : UInt8 := 0x7B
abbrev rbrace : UInt8 := 0x7D

def isDigit (b : UInt8) : Bool := 0x30 ≤ b && b ≤ 0x39

def isLower (b : UInt8) : Bool := 0x61 ≤ b && b ≤ 0x7A

def isUpper (b : UInt8) : Bool := 0x41 ≤ b && b ≤ 0x5A

def isLetter (b : UInt8) : Bool := isLower b || isUpper b

def isAlphanumeric (b : UInt8) : Bool := isLetter b || isDigit b

/-- The blanks that separate the parts of a tag: vertical tab is not one. -/
def isTagSpace (b : UInt8) : Bool :=
  b == space || b == lf || b == cr || b == tab || b == ff

/-- The blanks that are trimmed from literal text. -/
def isBlank (b : UInt8) : Bool := isTagSpace b || b == vt

def lower (b : UInt8) : UInt8 := if isUpper b then b + 0x20 else b

/-- The value of a hexadecimal digit of either case. -/
def hexValue? (b : UInt8) : Option Nat :=
  if isDigit b then some (b.toNat - 0x30)
  else if 0x61 ≤ b && b ≤ 0x66 then some (b.toNat - 0x61 + 10)
  else if 0x41 ≤ b && b ≤ 0x46 then some (b.toNat - 0x41 + 10)
  else none

/-- The lower-case hexadecimal digit of a value below 16. -/
def hexDigit (n : Nat) : UInt8 :=
  if n < 10 then (0x30 + n).toUInt8 else (0x61 + n - 10).toUInt8

/-- The last `width` hexadecimal digits of `n`, leading zeros kept. -/
def hexDigits : (width : Nat) → (n : Nat) → List UInt8
  | 0, _ => []
  | width + 1, n => hexDigits width (n / 16) ++ [hexDigit (n % 16)]

end DomTemplate.Ascii
