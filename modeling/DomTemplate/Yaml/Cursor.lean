import DomTemplate.Yaml.Scalar

/-! Reading the small parts of a YAML text: white space, comments, names, tags, directives
and the headers of block scalars. -/

namespace DomTemplate.Yaml
open Ascii

/-- Walk over the glyphs that satisfy `pred`. -/
def skipGlyphs (pred : Glyph → Bool) (p : Place) : List Glyph → Except TextError Cursor
  | [] => return ⟨← p.need 1 [], []⟩
  | g :: rest => do
    let p ← p.need 1 (g :: rest)
    if pred g then skipGlyphs pred (p.after g) rest else return ⟨p, g :: rest⟩

/-- How far a comment is looked for, in bytes. -/
def commentReach : Nat := 512

/-- Look for a comment in what follows on the line, `src` being all of it and the list what is
behind the first `n` blanks. -/
def lookForComment (src : List Glyph) (p : Place) (n : Nat) : List Glyph → Bool × Place
  | [] => if n < commentReach then (false, (p.look (n + 1) src).2) else (false, p)
  | g :: rest =>
    if n < commentReach then
      match p.look (n + 1) src with
      | (false, p) => (false, p)
      | (true, p) => if g.isBlank then lookForComment src p (n + 1) rest else (g.is sharp, p)
    else (false, p)

namespace Cursor

def mark (c : Cursor) : Mark := c.place.mark

/-- Ask for `n` characters. -/
def need (c : Cursor) (n : Nat) : Except TextError Cursor :=
  return { c with place := ← c.place.need n c.rest }

def next (c : Cursor) : Cursor :=
  match c.rest with
  | [] => c
  | g :: rest => ⟨c.place.after g, rest⟩

/-- Go behind a line break. -/
def nextLine (c : Cursor) : Except TextError Cursor := return (← c.need 2).next

def skipWhile (pred : Glyph → Bool) (c : Cursor) : Except TextError Cursor :=
  skipGlyphs pred c.place c.rest

def skipBlanks (c : Cursor) : Except TextError Cursor := c.skipWhile Glyph.isBlank

/-- Go to the end of the line. -/
def skipLine (c : Cursor) : Except TextError Cursor := c.skipWhile fun g => !g.isBreak

def starts (b : UInt8) (c : Cursor) : Bool := Yaml.starts b c.rest

def fail {α : Type} (c : Cursor) (start : Mark) (fault : Fault) : Except TextError α :=
  c.place.fail start fault

/-- The text of the glyphs that satisfy `pred`, and what follows. -/
def take (pred : Glyph → Bool) (c : Cursor) : Except TextError (Bytes × Cursor) :=
  return ((c.rest.takeWhile pred).flatMap Glyph.text, ← c.skipWhile pred)

/-- Skip a comment, its line break excluded. -/
def skipComment (c : Cursor) : Except TextError Cursor :=
  if c.starts sharp then c.skipLine else return c

/-- Skip blanks and a comment on the same line, if there is one. -/
def skipLineComment (c : Cursor) : Except TextError Cursor :=
  match lookForComment c.rest c.place 0 c.rest with
  | (true, place) => do (← { c with place }.skipBlanks).skipLine
  | (false, place) => return { c with place }

end Cursor

/-- What tags are made of, percent escapes aside. -/
def isUriGlyph (g : Glyph) : Bool := g.isWord || g.isOneOf (utf8 ";/?:@&=+$,.!~*'()[]")

/-- Where the reading of a tag stands: octets of a character that are still to come. -/
def octetsAfter (b : UInt8) : Option Nat :=
  if b < 0x80 then some 0
  else if b.toNat / 0x20 = 6 then some 1
  else if b.toNat / 0x10 = 14 then some 2
  else if b.toNat / 0x08 = 30 then some 3
  else none

/-- The text of a tag; `missing` octets of an escaped character have to follow. -/
def readUri (start : Mark) (text : Bytes) (missing : Nat) (p : Place) :
    List Glyph → Except TextError (Bytes × Cursor)
  | [] => do
    let p ← p.need (if missing = 0 then 1 else 3) []
    if missing = 0 then return (text, ⟨p, []⟩) else p.fail start .noOctet
  | g :: rest => do
    let p ← if missing = 0 then p.need 1 (g :: rest) else pure p
    if missing ≠ 0 || g.is percent then
      let p ← p.need 3 (g :: rest)
      match rest with
      | a :: b :: tail =>
        match g.is percent, a.hexValue?, b.hexValue? with
        | true, some hi, some lo =>
          let octet := (16 * hi + lo).toUInt8
          let next := ((p.after g).after a).after b
          if missing = 0 then
            match octetsAfter octet with
            | some n => readUri start (text ++ [octet]) n next tail
            | none => p.fail start .badLeadingOctet
          else if isTrail octet then readUri start (text ++ [octet]) (missing - 1) next tail
          else p.fail start .badTrailingOctet
        | _, _, _ => p.fail start .noOctet
      | _ => p.fail start .noOctet
    else if isUriGlyph g then readUri start (text ++ g.text) 0 (p.after g) rest
    else return (text, ⟨p, g :: rest⟩)

namespace Cursor

/-- A tag text, behind a `head` that has been read and whose bang is dropped. -/
def uri (c : Cursor) (start : Mark) (head : Bytes) : Except TextError (Bytes × Cursor) := do
  let (text, after) ← readUri start (head.drop 1) 0 c.place c.rest
  if head.isEmpty && after.mark = c.mark then c.fail start .noUri else return (text, after)

/-- The handle of a tag: words between bangs. Only a directive needs the second bang. -/
def handle (c : Cursor) (start : Mark) (directive : Bool) :
    Except TextError (Bytes × Cursor) := do
  let c ← c.need 1
  if !c.starts bang then c.fail start .noBang
  else
    let (word, after) ← c.next.take Glyph.isWord
    if after.starts bang then return (bang :: word ++ [bang], after.next)
    else if directive && !word.isEmpty then after.fail start .noBang
    else return (bang :: word, after)

/-- A tag: its handle and the text after it. -/
def tag (c : Cursor) : Except TextError ((Bytes × Bytes) × Cursor) := do
  let start := c.mark
  let c ← c.need 2
  let (found, after) ←
    if c.next.starts lt then do
      let (suffix, after) ← c.next.next.uri start []
      if after.starts gt then pure (([], suffix), after.next) else after.fail start .noTagEnd
    else do
      let (handle, after) ← c.handle start false
      if 1 < handle.length && handle.getLast? = some bang then do
        let (suffix, after) ← after.uri start []
        pure ((handle, suffix), after)
      else do
        let (suffix, after) ← after.uri start handle
        pure (if suffix.isEmpty then ([], [bang]) else ([bang], suffix), after)
  let after ← after.need 1
  if atWhite after.rest then return (found, after) else after.fail start .tagTail

/-- The name of an anchor or an alias, behind its indicator. -/
def anchor (c : Cursor) : Except TextError (Bytes × Cursor) := do
  let (name, after) ← c.next.take Glyph.isWord
  let ends := atWhite after.rest || after.rest.head?.any (Glyph.isOneOf (utf8 "?:,]\x7d%@`"))
  if !name.isEmpty && ends then return (name, after)
  else after.fail c.mark .badAnchor

/-- A number of a version, of at most two digits. -/
def versionNumber (c : Cursor) (start : Mark) : Except TextError (Nat × Cursor) := do
  let (digits, after) ← c.take Glyph.isDigit
  if 2 < digits.length then c.fail start .longVersion
  else match Bytes.digits? digits with
    | some n => return (n, after)
    | none => c.fail start .noVersion

/-- The value of a version directive. -/
def version (c : Cursor) (start : Mark) : Except TextError (TokenKind × Cursor) := do
  let (major, after) ← (← c.skipBlanks).versionNumber start
  if !after.starts dot then after.fail start .versionDigit
  else
    let (minor, after) ← after.next.versionNumber start
    return (.version major minor, after)

/-- The value of a tag directive. -/
def tagDirective (c : Cursor) (start : Mark) : Except TextError (TokenKind × Cursor) := do
  let (handle, after) ← (← c.skipBlanks).handle start true
  let after ← after.need 1
  if !after.rest.head?.any Glyph.isBlank then after.fail start .directiveBlank
  else
    let (expansion, after) ← (← after.skipBlanks).uri start []
    if atWhite after.rest then return (.tagDirective handle expansion, after)
    else after.fail start .directivePrefixEnd

/-- A directive with its line break. -/
def directive (c : Cursor) : Except TextError (TokenKind × Cursor) := do
  let start := c.mark
  let (name, after) ← c.next.take Glyph.isWord
  if name.isEmpty then after.fail start .noDirectiveName
  else if !atWhite after.rest then after.fail start .badDirectiveName
  else
    let (kind, after) ←
      if name = utf8 "YAML" then after.version start
      else if name = utf8 "TAG" then after.tagDirective start
      else after.fail start .unknownDirective
    let last ← (← after.skipBlanks).skipComment
    match last.rest with
    | [] => return (kind, last)
    | g :: _ =>
      if g.isBreak then return (kind, ← last.nextLine) else last.fail start .directiveTail

/-- A sign in the header of a block scalar. -/
def chomping? (c : Cursor) : Option Chomping :=
  if c.starts plus then some .keep else if c.starts dash then some .strip else none

/-- A digit in the header of a block scalar, which may not be zero. -/
def increment (c : Cursor) (start : Mark) : Except TextError (Nat × Cursor) :=
  match c.rest.head?.bind Glyph.byte? with
  | some b =>
    if !Ascii.isDigit b then return (0, c)
    else if b = zero then c.fail start .zeroIndentation
    else return (b.toNat - zero.toNat, c.next)
  | none => return (0, c)

/-- The header of a block scalar: a sign and a digit in any order, then nothing but a comment. -/
def blockHeader (c : Cursor) : Except TextError ((Chomping × Nat) × Cursor) := do
  let start := c.mark
  let c ← c.next.need 1
  let ((chomping, increment), after) ←
    match c.chomping? with
    | some chomping => do
      let (n, after) ← (← c.next.need 1).increment start
      pure ((chomping, n), after)
    | none => do
      let (n, after) ← c.increment start
      let after ← after.need 1
      match after.chomping? with
      | some chomping => pure (if n = 0 then ((.clip, n), after) else ((chomping, n), after.next))
      | none => pure ((.clip, n), after)
  let last ← (← after.skipBlanks).skipComment
  match last.rest with
  | [] => return ((chomping, increment), last)
  | g :: _ =>
    if g.isBreak then return ((chomping, increment), ← last.nextLine)
    else last.fail start .blockHeaderTail

/-- A block scalar with its header. -/
def block (c : Cursor) (literal : Bool) (parent : Int) : Except TextError (Bytes × Cursor) := do
  let ((chomping, increment), after) ← c.blockHeader
  let indent := if increment = 0 then 0 else (max parent 0).toNat + increment
  let (s, last) ← readBlock ⟨literal, parent, c.mark⟩ { indent } after.place after.rest
  return (s.final chomping, last)

end Cursor
end DomTemplate.Yaml
