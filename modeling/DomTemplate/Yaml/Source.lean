import DomTemplate.Text.CodePoint

/-! The characters of a YAML text: UTF-8, or UTF-16 behind a byte order mark, without the
control characters that YAML refuses. A text is decoded in runs of bytes, and what is wrong
with a run is only found when it is asked for. Line breaks of any kind are one glyph each. -/

namespace DomTemplate.Yaml
open Ascii

/-- Why bytes are no YAML text. -/
inductive SourceFault where
  | leadingOctet
  | incompleteSequence
  | trailingOctet
  | overlongSequence
  | notCharacter
  | controlCharacter
  | incompleteCharacter
  | strayLowSurrogate
  | incompletePair
  | missingLowSurrogate
  deriving DecidableEq, Repr

def SourceFault.render : SourceFault → Bytes
  | leadingOctet => utf8 "invalid leading UTF-8 octet"
  | incompleteSequence => utf8 "incomplete UTF-8 octet sequence"
  | trailingOctet => utf8 "invalid trailing UTF-8 octet"
  | overlongSequence => utf8 "invalid length of a UTF-8 sequence"
  | notCharacter => utf8 "invalid Unicode character"
  | controlCharacter => utf8 "control characters are not allowed"
  | incompleteCharacter => utf8 "incomplete UTF-16 character"
  | strayLowSurrogate => utf8 "unexpected low surrogate area"
  | incompletePair => utf8 "incomplete UTF-16 surrogate pair"
  | missingLowSurrogate => utf8 "expected low surrogate area"

def isAllowed (c : Nat) : Bool :=
  c == 0x09 || c == 0x0A || c == 0x0D || (0x20 ≤ c && c ≤ 0x7E) || c == 0x85 ||
  (0xA0 ≤ c && c ≤ 0xD7FF) || (0xE000 ≤ c && c ≤ 0xFFFD) || (0x10000 ≤ c && c ≤ 0x10FFFF)

/-- What comes of the start of a text. -/
inductive Decoded where
  /-- A character, and what follows it. -/
  | character (c : Nat) (rest : Bytes)
  | broken (fault : SourceFault)
  /-- The end of a character is missing, which is a fault at the end of the text. -/
  | unfinished (fault : SourceFault)
  deriving DecidableEq, Repr

namespace Decoded

/-- The character `c`, if it is allowed. -/
def ofCharacter (c : Nat) (rest : Bytes) : Decoded :=
  if isAllowed c then .character c rest else .broken .controlCharacter

/-- The character `c`, from a sequence that may only hold numbers from `least` on. -/
def ofSequence (least c : Nat) (rest : Bytes) : Decoded :=
  if c < least then .broken .overlongSequence
  else if (0xD800 ≤ c && c ≤ 0xDFFF) || 0x10FFFF < c then .broken .notCharacter
  else ofCharacter c rest

end Decoded

/-- The six bits of a trailing octet. -/
def trailBits (b : UInt8) : Nat := b.toNat % 0x40

def isTrail (b : UInt8) : Bool := b.toNat / 0x40 == 2

/-- The character of a sequence of two octets or more. -/
def decodeSequence (a : UInt8) (rest : Bytes) : Decoded :=
  if a.toNat / 0x20 = 6 then
    match rest with
    | b :: rest =>
      if isTrail b then .ofSequence 0x80 (a.toNat % 0x20 * 0x40 + trailBits b) rest
      else .broken .trailingOctet
    | _ => .unfinished .incompleteSequence
  else if a.toNat / 0x10 = 14 then
    match rest with
    | b :: c :: rest =>
      if isTrail b && isTrail c then
        .ofSequence 0x800 ((a.toNat % 0x10 * 0x40 + trailBits b) * 0x40 + trailBits c) rest
      else .broken .trailingOctet
    | _ => .unfinished .incompleteSequence
  else if a.toNat / 0x08 = 30 then
    match rest with
    | b :: c :: d :: rest =>
      if isTrail b && isTrail c && isTrail d then
        .ofSequence 0x10000
          (((a.toNat % 0x08 * 0x40 + trailBits b) * 0x40 + trailBits c) * 0x40 + trailBits d) rest
      else .broken .trailingOctet
    | _ => .unfinished .incompleteSequence
  else .broken .leadingOctet

/-- The number made of two octets. -/
def pairValue (littleEndian : Bool) (a b : UInt8) : Nat :=
  if littleEndian then b.toNat * 0x100 + a.toNat else a.toNat * 0x100 + b.toNat

inductive Encoding where
  | utf8
  | utf16 (littleEndian : Bool)
  deriving DecidableEq, Repr

/-- The first character of a text. -/
def Encoding.decode (e : Encoding) (s : Bytes) : Decoded :=
  match e, s with
  | .utf8, [] => .unfinished .incompleteSequence
  | .utf8, a :: rest =>
    if a < 0x80 then .ofCharacter a.toNat rest else decodeSequence a rest
  | .utf16 littleEndian, a :: b :: rest =>
    let high := pairValue littleEndian a b
    if high / 0x400 = 0x37 then .broken .strayLowSurrogate
    else if high / 0x400 = 0x36 then
      match rest with
      | c :: d :: rest =>
        let low := pairValue littleEndian c d
        if low / 0x400 = 0x37 then
          .ofCharacter (0x10000 + high % 0x400 * 0x400 + low % 0x400) rest
        else .broken .missingLowSurrogate
      | _ => .unfinished .incompletePair
    else .ofCharacter high rest
  | .utf16 _, _ => .unfinished .incompleteCharacter

/-- The bytes that are decoded at a time. -/
def runLength : Nat := 512

/-- The encoding that the byte order mark of a text tells, how much of the first run is left
behind the mark, and the text behind it. -/
def encodingOf (s : Bytes) : Encoding × Nat × Bytes :=
  match s with
  | 0xFF :: 0xFE :: rest => (.utf16 true, runLength - 2, rest)
  | 0xFE :: 0xFF :: rest => (.utf16 false, runLength - 2, rest)
  | 0xEF :: 0xBB :: 0xBF :: rest => (.utf8, runLength - 3, rest)
  | _ => (.utf8, runLength, s)

/-- Characters that are decoded together, and the fault behind them. -/
structure Run where
  characters : List Nat
  fault : Option SourceFault := none
  deriving DecidableEq, Repr

/-- The characters at the start of `s`, and the bytes of an unfinished one after them. Every
character takes a byte, so `steps` need not be more than the bytes. -/
def decodeRun (e : Encoding) : (steps : Nat) → (s : Bytes) → Run × Bytes
  | 0, s => (⟨[], none⟩, s)
  | _ + 1, [] => (⟨[], none⟩, [])
  | steps + 1, s =>
    match e.decode s with
    | .broken fault => (⟨[], some fault⟩, [])
    | .unfinished _ => (⟨[], none⟩, s)
    | .character c rest =>
      let (run, left) := decodeRun e steps rest
      ({ run with characters := c :: run.characters }, left)

/-- The runs of a text up to the first fault. An unfinished character is decoded with the next
run; `size` is the length of the first one, and `steps` bounds their number. -/
def runsOf (e : Encoding) : (steps size : Nat) → (s : Bytes) → List Run
  | 0, _, _ => []
  | _ + 1, _, [] => []
  | steps + 1, size, s =>
    let (run, left) := decodeRun e size (s.take size)
    if run.fault.isSome then [run]
    else if run.characters.isEmpty then
      match e.decode s with
      | .unfinished fault => [⟨[], some fault⟩]
      | _ => []
    else run :: runsOf e steps runLength (left ++ s.drop size)

/-- The ways to end a line. -/
inductive LineBreak where
  | feed
  | carriage
  /-- A carriage return with a line feed. -/
  | pair
  | nextLine
  /-- A separator of lines or of paragraphs. -/
  | separator (c : Nat)
  deriving DecidableEq, Repr

namespace LineBreak

/-- A line break is a line feed, whichever way it is written; only separators stay as they
are. -/
def text : LineBreak → Bytes
  | separator c => CodePoint.encode c
  | _ => [lf]

/-- The number of characters. -/
def width : LineBreak → Nat
  | pair => 2
  | _ => 1

def isAscii : LineBreak → Bool
  | feed | carriage | pair => true
  | nextLine | separator _ => false

end LineBreak

/-- A character, or a line break. -/
inductive Glyph where
  | char (c : Nat)
  | newline (kind : LineBreak)
  deriving DecidableEq, Repr

/-- The number of characters in a glyph. -/
def Glyph.width : Glyph → Nat
  | char _ => 1
  | newline kind => kind.width

def glyphs : List Nat → List Glyph
  | [] => []
  | c :: rest =>
    if c = 0x0D then
      match rest with
      | d :: tail =>
        if d = 0x0A then .newline .pair :: glyphs tail
        else .newline .carriage :: glyphs (d :: tail)
      | [] => [.newline .carriage]
    else if c = 0x0A then .newline .feed :: glyphs rest
    else if c = 0x85 then .newline .nextLine :: glyphs rest
    else if c = 0x2028 || c = 0x2029 then .newline (.separator c) :: glyphs rest
    else .char c :: glyphs rest

/-- A text to read: its glyphs up to the first fault, and the runs that they come in. -/
structure Source where
  glyphs : List Glyph
  runs : List Run

def Source.ofBytes (s : Bytes) : Source :=
  let (encoding, size, text) := encodingOf s
  let runs := runsOf encoding (text.length + 1) size text
  ⟨Yaml.glyphs (runs.flatMap Run.characters), runs⟩

end DomTemplate.Yaml
