import DomTemplate.Yaml.Window

/-! Reading scalars: plain, quoted and block. Each reader walks over the glyphs once; white
space inside a scalar is held back until it is known what follows it. -/

namespace DomTemplate.Yaml
open Ascii

/-- What is left to read, and where it starts. -/
structure Cursor where
  place : Place
  rest : List Glyph
  deriving DecidableEq, Repr

namespace Glyph

def is (b : UInt8) : Glyph → Bool
  | char c => c == b.toNat
  | newline .. => false

def isOneOf (bs : Bytes) (g : Glyph) : Bool := bs.any fun b => g.is b

def isBlank (g : Glyph) : Bool := g.is space || g.is tab

def isBreak : Glyph → Bool
  | newline .. => true
  | char _ => false

/-- White space: blanks and line breaks. -/
def isWhite (g : Glyph) : Bool := g.isBlank || g.isBreak

/-- An ASCII character. -/
def byte? : Glyph → Option UInt8
  | char c => if c < 0x80 then some c.toUInt8 else none
  | newline .. => none

def isDigit (g : Glyph) : Bool := g.byte?.any Ascii.isDigit

/-- A character of names: a letter, a digit, an underscore or a dash. -/
def isWord (g : Glyph) : Bool :=
  g.byte?.any fun b => isAlphanumeric b || b == underscore || b == dash

def hexValue? (g : Glyph) : Option Nat := g.byte?.bind Ascii.hexValue?

def text : Glyph → Bytes
  | char c => CodePoint.encode c
  | newline kind => kind.text

end Glyph

/-- The text starts with `b`. -/
def starts (b : UInt8) (src : List Glyph) : Bool := src.head?.any fun g => g.is b

/-- The text starts with a line break, or ends. -/
def atBreak (src : List Glyph) : Bool := src.head?.all Glyph.isBreak

/-- The text starts with white space, or ends. -/
def atWhite (src : List Glyph) : Bool := src.head?.all Glyph.isWhite

/-- The text starts with the mark that starts or ends a document. -/
def atDocumentMark (src : List Glyph) : Bool :=
  match src with
  | a :: b :: c :: rest =>
    ((a.is dash && b.is dash && c.is dash) || (a.is dot && b.is dot && c.is dot)) && atWhite rest
  | _ => false

/-- White space inside a scalar. -/
structure Gap where
  /-- Blanks, as long as no line break follows them. -/
  blanks : Bytes := []
  /-- The first line break and those after it. -/
  breaks : Option (Bytes × Bytes) := none
  deriving DecidableEq, Repr

namespace Gap

def add (gap : Gap) : Glyph → Gap
  | .newline kind =>
    match gap.breaks with
    | none => { breaks := some (kind.text, []) }
    | some (first, more) => { breaks := some (first, more ++ kind.text) }
  | .char c =>
    match gap.breaks with
    | none => { gap with blanks := gap.blanks ++ CodePoint.encode c }
    | some _ => gap

/-- What the white space stands for: a single line break becomes a blank, and of several the
first is dropped. -/
def text (gap : Gap) : Bytes :=
  match gap.breaks with
  | none => gap.blanks
  | some (first, more) =>
    if first.head? = some lf then if more.isEmpty then [space] else more else first ++ more

end Gap

/-- A plain scalar as read. -/
structure Plain where
  text : Bytes
  /-- A line break follows, and was read. -/
  broken : Bool
  cursor : Cursor

/-- Where a plain scalar stands. -/
structure PlainContext where
  inFlow : Bool
  /-- The column that further lines have to reach. -/
  indent : Int
  start : Mark

/-- The indicators that end a plain scalar inside brackets. -/
def flowStops : Bytes := utf8 ",?[]\x7b\x7d"

/-- A plain scalar ends before a glyph, by the glyph alone. -/
def endsPlain (inFlow : Bool) (g : Glyph) (rest : List Glyph) : Bool :=
  (g.is colon && atWhite rest) || (inFlow && g.isOneOf flowStops)

/-- The column is too small for a further word of a plain scalar. -/
def PlainContext.isOutside (c : PlainContext) (p : Place) : Bool :=
  !c.inFlow && (p.mark.column : Int) < c.indent

/-- A plain scalar does not go on with a word after white space. -/
def endsPlainWord (p : Place) (src : List Glyph) : Bool :=
  (p.mark.column == 0 && atDocumentMark src) || starts sharp src

/-- The place after white space in a scalar. -/
def Place.afterWhite (p : Place) (g : Glyph) (rest : List Glyph) : Except TextError Place := do
  let p ← if g.isBreak then p.need 2 (g :: rest) else pure p
  (p.after g).need 1 rest

/-- Read a plain scalar, where `text` and then `gap` have been read; `spaced` says that white
space has just been read. -/
def readPlain (c : PlainContext) (text : Bytes) (gap : Gap) (spaced : Bool) (p : Place) :
    List Glyph → Except TextError Plain
  | [] => do
    let p ← if spaced && !c.isOutside p then p.need 4 [] else pure p
    return ⟨text, gap.breaks.isSome, ⟨p, []⟩⟩
  | g :: rest => do
    if g.isWhite then
      if gap.breaks.isSome && (p.mark.column : Int) < c.indent && g.is tab then
        p.fail c.start .tabInPlain
      else readPlain c text (gap.add g) true (← p.afterWhite g rest) rest
    else if spaced && c.isOutside p then
      return ⟨text, gap.breaks.isSome, ⟨p, g :: rest⟩⟩
    else
      let p ← if spaced then p.need 4 (g :: rest) else pure p
      if (spaced && endsPlainWord p (g :: rest)) || endsPlain c.inFlow g rest then
        return ⟨text, gap.breaks.isSome, ⟨p, g :: rest⟩⟩
      else
        readPlain c (text ++ gap.text ++ g.text) {} false (← (p.after g).need 2 rest) rest

/-- What follows a backslash. -/
inductive Escape where
  | text (value : Bytes)
  /-- The number of a character in so many hexadecimal digits. -/
  | code (digits : Nat)
  deriving DecidableEq, Repr

def escape? (b : UInt8) : Option Escape :=
  let table : List (UInt8 × Escape) :=
    [(0x30, .text [0]), (0x61, .text [7]), (0x62, .text [8]), (0x74, .text [tab]),
     (tab, .text [tab]), (0x6E, .text [lf]), (0x76, .text [vt]), (0x66, .text [ff]),
     (0x72, .text [cr]),
     (0x65, .text [0x1B]), (space, .text [space]), (quote, .text [quote]),
     (apostrophe, .text [apostrophe]), (backslash, .text [backslash]),
     (0x4E, .text (CodePoint.encode 0x85)), (0x5F, .text (CodePoint.encode 0xA0)),
     (0x4C, .text (CodePoint.encode 0x2028)), (0x50, .text (CodePoint.encode 0x2029)),
     (0x78, .code 2), (0x75, .code 4), (0x55, .code 8)]
  (table.find? fun entry => entry.1 == b).map Prod.snd

/-- Where the reading of a quoted scalar stands. -/
inductive QuotedState where
  /-- At the start. -/
  | start
  /-- Behind a character. -/
  | word
  /-- Behind white space. -/
  | spaced
  /-- Behind a line break with a backslash. -/
  | joined
  /-- Inside a numeric escape: digits left and the number so far. -/
  | code (left value : Nat)
  deriving DecidableEq, Repr

def isEscapable (c : Nat) : Bool := !(0xD800 ≤ c && c ≤ 0xDFFF) && c ≤ 0x10FFFF

/-- A text in quotes. -/
structure QuotedContext where
  single : Bool
  start : Mark

def QuotedContext.closes (c : QuotedContext) (g : Glyph) : Bool :=
  g.is (if c.single then apostrophe else quote)

/-- Before a word of a quoted scalar, or the end of the scalar, a mark of a document is looked
for; not behind characters, nor before the quote that closes a line joined with the next. -/
def QuotedState.isWordStart (s : QuotedState) (c : QuotedContext) (g : Glyph) : Bool :=
  match s with
  | start => true
  | word | code .. => false
  | spaced => !g.isWhite
  | joined => !g.isWhite && !c.closes g

/-- Read a quoted scalar behind its opening quote. -/
def readQuoted (c : QuotedContext) (text : Bytes) (gap : Gap) (p : Place) :
    QuotedState → List Glyph → Except TextError (Bytes × Cursor)
  | .code .., [] => p.fail c.start .noHexadecimal
  | .code left value, g :: rest => do
    match g.hexValue? with
    | none => p.fail c.start .noHexadecimal
    | some d =>
      let value := 16 * value + d
      if 1 < left then readQuoted c text gap (p.after g) (.code (left - 1) value) rest
      else if isEscapable value then
        readQuoted c (text ++ CodePoint.encode value) gap (← (p.after g).need 2 rest) .word rest
      else p.fail c.start .badEscapeCode
  | _, [] => do (← p.need 4 []).fail c.start .endInQuoted
  | state, g :: rest => do
    let p ← if state.isWordStart c g then p.need 4 (g :: rest) else pure p
    if state.isWordStart c g && p.mark.column = 0 && atDocumentMark (g :: rest) then
      p.fail c.start .documentInQuoted
    else if g.isWhite then
      readQuoted c text (gap.add g) (← p.afterWhite g rest) .spaced rest
    else
      let text := text ++ gap.text
      if c.single && g.is apostrophe then
        match rest with
        | h :: tail =>
          if h.is apostrophe then
            let next ← ((p.after g).after h).need 2 tail
            readQuoted c (text ++ [apostrophe]) {} next .word tail
          else return (text, ⟨p.after g, h :: tail⟩)
        | [] => return (text, ⟨p.after g, []⟩)
      else if c.closes g then return (text, ⟨p.after g, rest⟩)
      else if !c.single && g.is backslash then
        match rest with
        | [] => p.fail c.start .unknownEscape
        | h :: tail =>
          if h.isBreak then
            let p ← p.need 3 (g :: h :: tail)
            let next ← ((p.after g).after h).need 1 tail
            readQuoted c text { breaks := some ([], []) } next .joined tail
          else match h.byte?.bind escape? with
            | none => p.fail c.start .unknownEscape
            | some (.text value) =>
              let next ← ((p.after g).after h).need 2 tail
              readQuoted c (text ++ value) {} next .word tail
            | some (.code digits) =>
              let next ← ((p.after g).after h).need digits tail
              readQuoted c text {} next (.code digits 0) tail
      else readQuoted c (text ++ g.text) {} (← (p.after g).need 2 rest) .word rest

/-- What happens to the line breaks at the end of a block scalar. -/
inductive Chomping where
  | strip
  | clip
  | keep
  deriving DecidableEq, Repr

structure BlockContext where
  literal : Bool
  /-- The indentation of the block around the scalar. -/
  parent : Int
  start : Mark

structure BlockState where
  text : Bytes := []
  /-- The line break at the end of the last line, and those of empty lines after it. -/
  first : Bytes := []
  more : Bytes := []
  /-- The last line starts with a blank. -/
  blankLine : Bool := false
  /-- The indentation of the scalar; zero while it is not known. -/
  indent : Nat := 0
  /-- The longest run of blanks at the start of a line so far. -/
  widest : Nat := 0
  inLine : Bool := false

namespace BlockState

/-- The text up to a new line, which starts with a blank or not. Lines are joined unless one
of them starts with a blank. -/
def joined (c : BlockContext) (s : BlockState) (blank : Bool) : Bytes :=
  if !c.literal && !s.blankLine && !blank && s.first.head? = some lf then
    s.text ++ (if s.more.isEmpty then [space] else s.more)
  else s.text ++ s.first ++ s.more

/-- The indentation, which the first line that is not empty sets. -/
def indentAt (c : BlockContext) (s : BlockState) (column : Nat) : Nat :=
  if s.indent = 0 then max (max s.widest column) (max (c.parent + 1).toNat 1) else s.indent

end BlockState

/-- Read the lines of a block scalar. -/
def readBlock (c : BlockContext) (s : BlockState) (p : Place) :
    List Glyph → Except TextError (BlockState × Cursor)
  | [] => do
    let p ← p.need 1 []
    if s.inLine then return (s, ⟨← (← p.need 2 []).need 1 [], []⟩) else return (s, ⟨p, []⟩)
  | g :: rest => do
    let p ← p.need 1 (g :: rest)
    let column := p.mark.column
    if s.inLine then
      if g.isBreak then
        let p ← p.need 2 (g :: rest)
        readBlock c { s with first := g.text, inLine := false } (p.after g) rest
      else readBlock c { s with text := s.text ++ g.text } (p.after g) rest
    else if (s.indent = 0 || column < s.indent) && g.is space then
      readBlock c s (p.after g) rest
    else if (s.indent = 0 || column < s.indent) && g.is tab then
      p.fail c.start .tabIndentation
    else if g.isBreak then
      let p ← p.need 2 (g :: rest)
      readBlock c { s with more := s.more ++ g.text, widest := max s.widest column }
        (p.after g) rest
    else if column = s.indentAt c column then
      readBlock c
        { text := s.joined c g.isBlank ++ g.text, blankLine := g.isBlank,
          indent := column, inLine := true }
        (p.after g) rest
    else return (s, ⟨p, g :: rest⟩)

/-- The text of a block scalar that has been read. -/
def BlockState.final (s : BlockState) : Chomping → Bytes
  | .strip => s.text
  | .clip => s.text ++ s.first
  | .keep => s.text ++ s.first ++ s.more

end DomTemplate.Yaml
