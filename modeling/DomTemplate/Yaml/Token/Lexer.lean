import DomTemplate.Yaml.Cursor

/-! From glyphs to tokens. Where a key is not marked as one, it is known as a key only when
its colon is found; tokens are therefore held in a queue, and the tokens that open a
mapping and a key are put in front of what has been read meanwhile. -/

namespace DomTemplate.Yaml
open Ascii

/-- A place where a key may have started. -/
structure SimpleKey where
  possible : Bool := false
  /-- Nothing else can stand here. -/
  required : Bool := false
  /-- The number of the key's first token. -/
  number : Nat := 0
  mark : Mark := {}
  deriving DecidableEq, Repr

structure Lexer where
  cursor : Cursor
  started : Bool := false
  flowLevel : Nat := 0
  indent : Int := -1
  /-- The indentations around the current one, the innermost first. -/
  indents : List Int := []
  /-- A key may start here. -/
  keyAllowed : Bool := false
  /-- The last possible key of each level of brackets, the innermost first. -/
  keys : List SimpleKey := []
  /-- For the numbers of tokens that may start keys, the level of the key. -/
  levels : List (Nat × Nat) := []
  queue : List Token := []
  /-- How many tokens have left the queue. -/
  taken : Nat := 0

namespace Lexer

def mark (l : Lexer) : Mark := l.cursor.mark

def rest (l : Lexer) : List Glyph := l.cursor.rest

def fail {α : Type} (l : Lexer) (start : Mark) (fault : Fault) : Except TextError α :=
  l.cursor.fail start fault

/-- The number of the next token. -/
def nextNumber (l : Lexer) : Nat := l.taken + l.queue.length

def push (l : Lexer) (kind : TokenKind) (m : Mark) : Lexer :=
  { l with queue := l.queue ++ [{ kind, line := m.line }] }

/-- Put a token in front of the token with the given number, or last if that has left. -/
def insert (l : Lexer) (number : Nat) (kind : TokenKind) (m : Mark) : Lexer :=
  if number < l.taken then l.push kind m
  else { l with queue := l.queue.insertIdx (number - l.taken) { kind, line := m.line } }

/-- The greatest length of a key, in characters. -/
def longestKey : Nat := 1024

/-- The nesting that a text may have. -/
def deepest : Nat := 10000

/-- A possible key is still one: its colon may yet come. -/
def isValid (l : Lexer) (k : SimpleKey) : Except TextError Bool :=
  if !k.possible then .ok false
  else if k.mark.line < l.mark.line || k.mark.index + longestKey < l.mark.index then
    if k.required then l.fail k.mark .noColon else .ok false
  else .ok true

/-- Give up the possible key of the current level. -/
def dropKey (l : Lexer) : Except TextError Lexer :=
  match l.keys with
  | [] => .ok l
  | k :: keys =>
    if !k.possible then .ok l
    else if k.required then l.fail k.mark .noColon
    else .ok { l with
      keys := { k with possible := false } :: keys
      levels := l.levels.filter fun entry => entry.1 != k.number }

/-- Note that a key may start here. -/
def saveKey (l : Lexer) : Except TextError Lexer :=
  if !l.keyAllowed then .ok l
  else do
    let required := l.flowLevel = 0 && l.indent = l.mark.column
    let dropped ← l.dropKey
    return { dropped with
      keys := ⟨true, required, l.nextNumber, l.mark⟩ :: dropped.keys.tail
      levels := (l.nextNumber, dropped.keys.length - 1) ::
        dropped.levels.filter fun entry => entry.1 != l.nextNumber }

/-- Open a block whose indentation is `column`, if that is more than the current one. The
token goes in front of the token `number`, or last. -/
def indentTo (l : Lexer) (column : Nat) (number : Option Nat) (kind : TokenKind) (m : Mark) :
    Except TextError Lexer :=
  if 0 < l.flowLevel || (column : Int) ≤ l.indent then .ok l
  else
    let opened := { l with indents := l.indent :: l.indents, indent := column }
    if deepest < opened.indents.length then
      l.fail ((l.keys.head?.map SimpleKey.mark).getD {}) .tooDeep
    else match number with
      | some n => .ok (opened.insert n kind m)
      | none => .ok (opened.push kind m)

/-- How many blocks are indented by more than `column`. -/
def deeperThan (column : Int) : Int → List Int → Nat
  | indent, outer =>
    match outer with
    | [] => 0
    | next :: more => if column < indent then 1 + deeperThan column next more else 0

/-- Close the blocks that are indented by more than `column`. -/
def closeBlocks (l : Lexer) (column : Int) (m : Mark) : Lexer :=
  if 0 < l.flowLevel then l
  else
    let n := deeperThan column l.indent l.indents
    { l with
      queue := l.queue ++ List.replicate n { kind := .blockEnd, line := m.line }
      indent := (l.indent :: l.indents).getD n (-1)
      indents := l.indents.drop n }

/-- A token of one glyph. -/
def single (l : Lexer) (kind : TokenKind) : Lexer :=
  { l.push kind l.mark with cursor := l.cursor.next }

def openFlow (l : Lexer) (kind : TokenKind) : Except TextError Lexer := do
  let saved ← l.saveKey
  let opened := { saved with
    keys := { number := saved.nextNumber, mark := saved.mark } :: saved.keys
    flowLevel := saved.flowLevel + 1
    keyAllowed := true }
  if deepest < opened.flowLevel then opened.fail opened.mark .tooDeep else return opened.single kind

def closeFlow (l : Lexer) (kind : TokenKind) : Except TextError Lexer := do
  let dropped ← l.dropKey
  let closed :=
    if dropped.flowLevel = 0 then dropped
    else { dropped with
      flowLevel := dropped.flowLevel - 1
      levels := dropped.levels.filter fun entry =>
        some entry.1 != dropped.keys.head?.map SimpleKey.number
      keys := dropped.keys.tail }
  return { closed with keyAllowed := false }.single kind

def flowEntry (l : Lexer) : Except TextError Lexer := do
  return { ← l.dropKey with keyAllowed := true }.single .flowEntry

def blockEntry (l : Lexer) : Except TextError Lexer := do
  let opened ←
    if 0 < l.flowLevel then pure l
    else if !l.keyAllowed then l.fail l.mark .entryNotAllowed
    else l.indentTo l.mark.column none .blockSequenceStart l.mark
  return { ← opened.dropKey with keyAllowed := true }.single .blockEntry

def key (l : Lexer) : Except TextError Lexer := do
  let opened ←
    if 0 < l.flowLevel then pure l
    else if !l.keyAllowed then l.fail l.mark .keyNotAllowed
    else l.indentTo l.mark.column none .blockMappingStart l.mark
  return { ← opened.dropKey with keyAllowed := l.flowLevel = 0 }.single .key

/-- A colon: the end of a key that started at `k`. -/
def valueOfKey (l : Lexer) (k : SimpleKey) (keys : List SimpleKey) : Except TextError Lexer := do
  let opened ← (l.insert k.number .key k.mark).indentTo k.mark.column (some k.number)
    .blockMappingStart k.mark
  return { opened with
    keys := { k with possible := false } :: keys
    levels := opened.levels.filter fun entry => entry.1 != k.number
    keyAllowed := false }.single .value

/-- A colon without a key on the same line. -/
def valueAlone (l : Lexer) : Except TextError Lexer := do
  let opened ←
    if 0 < l.flowLevel then pure l
    else if !l.keyAllowed then l.fail l.mark .valueNotAllowed
    else l.indentTo l.mark.column none .blockMappingStart l.mark
  return { opened with keyAllowed := l.flowLevel = 0 }.single .value

def value (l : Lexer) : Except TextError Lexer := do
  match l.keys with
  | [] => l.valueAlone
  | k :: keys =>
    if ← l.isValid k then l.valueOfKey k keys
    else valueAlone { l with keys := { k with possible := false } :: keys }

/-- A token after which no key may start, of the given content. -/
def content (l : Lexer) (read : Cursor → Except TextError (TokenKind × Cursor)) :
    Except TextError Lexer := do
  let saved ← l.saveKey
  let (kind, cursor) ← read saved.cursor
  return { { saved with keyAllowed := false }.push kind saved.mark with cursor }

def blockScalar (l : Lexer) (literal : Bool) : Except TextError Lexer := do
  let dropped ← l.dropKey
  let (text, cursor) ← dropped.cursor.block literal dropped.indent
  return { { dropped with keyAllowed := true }.push (.scalar text false) dropped.mark with cursor }

def quotedScalar (l : Lexer) (single : Bool) : Except TextError Lexer :=
  l.content fun c => do
    let (text, after) ← readQuoted ⟨single, c.mark⟩ [] {} c.next.place .start c.next.rest
    return (.scalar text false, after)

/-- A plain scalar; a key may follow it on another line. -/
def plainScalar (l : Lexer) : Except TextError (Lexer × Bool) := do
  let saved ← l.saveKey
  let context : PlainContext :=
    { inFlow := 0 < saved.flowLevel, indent := saved.indent + 1, start := saved.mark }
  let p ← readPlain context [] {} false saved.cursor.place saved.rest
  let pushed := { saved with keyAllowed := p.broken }.push (.scalar p.text true) saved.mark
  return ({ pushed with cursor := p.cursor }, p.broken)

end Lexer

/-- Where the way to the next token stands. -/
inductive Skipping where
  | blanks
  | comment
  /-- White space before a further comment. -/
  | gap
  deriving DecidableEq, Repr

/-- Behind a comment, look for a further one with nothing but white space before it. `src` is
all that follows, and the list what is behind its first `n` bytes. A line break of more than
one byte ends the way. -/
def lookPastGap (src : List Glyph) (p : Place) (n : Nat) : List Glyph → Bool × Place
  | [] => if n < commentReach then (false, (p.look (n + 1) src).2) else (false, p)
  | g :: rest =>
    if n < commentReach then
      match p.look (n + 1) src, g with
      | (false, p), _ => (false, p)
      | (true, p), .newline .pair =>
        if n + 1 < commentReach then
          match p.look (n + 2) src with
          | (false, p) => (false, p)
          | (true, p) => lookPastGap src p (n + 2) rest
        else (false, p)
      | (true, p), .newline kind =>
        if kind.isAscii then lookPastGap src p (n + 1) rest
        else if n + 1 < commentReach then (false, (p.look (n + 2) src).2)
        else (false, p)
      | (true, p), .char c =>
        if Glyph.isBlank (.char c) then lookPastGap src p (n + 1) rest
        else (Glyph.is sharp (.char c), p)
    else (false, p)

/-- A further comment follows the line break that ends a comment, or the end of the text. -/
def lookForGap (p : Place) (src : List Glyph) : Bool × Place :=
  match src with
  | .newline .pair :: rest =>
    match p.look 2 src with
    | (false, p) => (false, p)
    | (true, p) => lookPastGap src p 2 rest
  | .newline kind :: rest =>
    if kind.isAscii then lookPastGap src p 1 rest else (false, (p.look 2 src).2)
  | _ => (false, (p.look 2 src).2)

/-- What the way to the next token depends on. -/
structure SkipContext where
  /-- It leads through brackets. -/
  inFlow : Bool
  /-- A key may start at its end. -/
  keyAllowed : Bool

/-- Outside brackets a key may start on the next line. -/
def SkipContext.onNextLine (c : SkipContext) : SkipContext :=
  { c with keyAllowed := c.keyAllowed || !c.inFlow }

/-- Blanks that are skipped: tabs only where no key may start. -/
def SkipContext.skips (c : SkipContext) (g : Glyph) : Bool :=
  g.is space || ((c.inFlow || !c.keyAllowed) && g.is tab)

/-- Skip white space and comments, and answer whether a key may start. While the window starts
with a byte order mark, the first character of each line is skipped, too. -/
def skipToToken (c : SkipContext) (p : Place) :
    Skipping → List Glyph → Except TextError (Bool × Cursor)
  | .blanks, [] => do
    let p ← p.need 1 []
    let p := if p.mark.column = 0 && p.window.marked then p.skipMarked else p
    return (c.keyAllowed, ⟨← p.need 1 [], []⟩)
  | .comment, [] => do
    let p ← p.need 1 []
    return (c.keyAllowed, ⟨(lookForGap p []).2, []⟩)
  | .gap, [] => return (c.keyAllowed, ⟨← p.need 1 [], []⟩)
  | .blanks, g :: rest => do
    let p ← p.need 1 (g :: rest)
    if p.mark.column = 0 && p.window.marked then
      if g = .newline .pair then
        let p ← (← p.skipMarked.need 1 (.newline .feed :: rest)).need 2 (.newline .feed :: rest)
        skipToToken c.onNextLine (p.after (.newline .feed)) .blanks rest
      else skipToToken c p.skipMarked .blanks rest
    else if c.skips g then skipToToken c (p.after g) .blanks rest
    else if g.is sharp then skipToToken c (p.after g) .comment rest
    else if g.isBreak then
      skipToToken c.onNextLine ((← p.need 2 (g :: rest)).after g) .blanks rest
    else return (c.keyAllowed, ⟨p, g :: rest⟩)
  | .comment, g :: rest => do
    let p ← p.need 1 (g :: rest)
    if !g.isBreak then skipToToken c (p.after g) .comment rest
    else
      let (found, p) := lookForGap p (g :: rest)
      let next := (← p.need 2 (g :: rest)).after g
      if found then skipToToken c next .gap rest
      else skipToToken c.onNextLine next .blanks rest
  | .gap, g :: rest => do
    let p ← p.need 1 (g :: rest)
    if g.is sharp then skipToToken c (p.after g) .comment rest
    else
      let p ← if g.isBreak then p.need 2 (g :: rest) else pure p
      skipToToken c (p.after g) .gap rest

namespace Lexer

/-- Close all blocks at the end of a document. -/
def endDocument (l : Lexer) : Except TextError Lexer := do
  return { ← (l.closeBlocks (-1) l.mark).dropKey with keyAllowed := false }

/-- The end of the text is at the start of a line of its own. -/
def streamEnd (l : Lexer) : Except TextError Lexer := do
  let m :=
    if l.mark.column = 0 then l.mark else { l.mark with line := l.mark.line + 1, column := 0 }
  let ended ← { l with cursor := ⟨{ l.cursor.place with mark := m }, []⟩ }.endDocument
  return ended.push .streamEnd m

def documentMark (l : Lexer) (kind : TokenKind) : Except TextError Lexer := do
  let ended ← l.endDocument
  return { ended.push kind ended.mark with cursor := ended.cursor.next.next.next }

def directive (l : Lexer) : Except TextError Lexer := do
  let ended ← l.endDocument
  let (kind, cursor) ← ended.cursor.directive
  return { ended.push kind ended.mark with cursor }

/-- A comment may follow a token on its line. -/
def skipLineComment (l : Lexer) : Except TextError Lexer :=
  return { l with cursor := ← l.cursor.skipLineComment }

/-- The indicators that no plain scalar starts with. -/
def indicators : Bytes := utf8 "-?:,[]\x7b\x7d#&*!|>'\"%@`"

/-- A plain scalar may start with `g`. -/
def startsPlain (inFlow : Bool) (g : Glyph) (rest : List Glyph) : Bool :=
  !(g.isWhite || g.isOneOf indicators) || (g.is dash && !rest.head?.any Glyph.isBlank) ||
    (!inFlow && (g.is question || g.is colon) && !atWhite rest)

/-- The token that starts with `g`. -/
def token (l : Lexer) (g : Glyph) (rest : List Glyph) : Except TextError Lexer := do
  let inFlow : Bool := 0 < l.flowLevel
  if g.is 0x5B then (← l.openFlow .flowSequenceStart).skipLineComment
  else if g.is lbrace then (← l.openFlow .flowMappingStart).skipLineComment
  else if g.is 0x5D then (← l.closeFlow .flowSequenceEnd).skipLineComment
  else if g.is rbrace then (← l.closeFlow .flowMappingEnd).skipLineComment
  else if g.is comma then (← l.flowEntry).skipLineComment
  else if g.is dash && atWhite rest then l.blockEntry
  else if g.is question && (inFlow || atWhite rest) then (← l.key).skipLineComment
  else if g.is colon && (inFlow || atWhite rest) then (← l.value).skipLineComment
  else if g.is star then
    (← l.content fun c => (c.anchor).map fun (n, c) => (.reference n, c)).skipLineComment
  else if g.is amp then
    (← l.content fun c => (c.anchor).map fun (n, c) => (.anchor n, c)).skipLineComment
  else if g.is bang then
    (← l.content fun c => (c.tag).map fun ((h, s), c) => (.tag h s, c)).skipLineComment
  else if g.is 0x7C && !inFlow then l.blockScalar true
  else if g.is gt && !inFlow then l.blockScalar false
  else if g.is apostrophe then (← l.quotedScalar true).skipLineComment
  else if g.is quote then (← l.quotedScalar false).skipLineComment
  else if startsPlain inFlow g rest then do
    let (read, broken) ← l.plainScalar
    if broken then return read else read.skipLineComment
  else l.fail l.mark .noToken

/-- Read one more token, and those that its indentation ends. -/
def fetch (l : Lexer) : Except TextError Lexer := do
  let l := { l with cursor := ← l.cursor.need 1 }
  if !l.started then
    return { l with started := true, keyAllowed := true, keys := [{}] }.push .streamStart l.mark
  else
    let (keyAllowed, cursor) ←
      skipToToken ⟨0 < l.flowLevel, l.keyAllowed⟩ l.cursor.place .blanks l.rest
    let closed := { l with keyAllowed, cursor }.closeBlocks cursor.mark.column l.mark
    let closed := { closed with cursor := ← cursor.need 4 }
    match closed.rest with
    | [] => closed.streamEnd
    | g :: rest =>
      if closed.mark.column = 0 && g.is percent then closed.directive
      else if closed.mark.column = 0 && atDocumentMark (g :: rest) then
        closed.documentMark (if g.is dash then .documentStart else .documentEnd)
      else closed.token g rest

/-- Let the first token of the queue go, if it can: two more are known, and it starts no key
whose colon may yet come. A key found to be none is given up, but not its level. -/
def release? (l : Lexer) : Except TextError (Option Lexer) := do
  if l.queue.length < 3 then return none
  else
    match l.levels.find? fun entry => entry.1 == l.taken with
    | none => return some l
    | some (_, level) =>
      match l.keys.reverse[level]? with
      | none => return some l
      | some k =>
        if ← l.isValid k then return none
        else
          let place := l.keys.length - 1 - level
          return some { l with keys := l.keys.set place { k with possible := false } }

/-- The tokens of a text, and the fault that ends them. `steps` bounds the steps taken. -/
def deliver : (steps : Nat) → Lexer → List Token × Option TextError
  | 0, _ => ([], none)
  | steps + 1, l =>
    match l.release? with
    | .error e => ([], some e)
    | .ok (some l) =>
      match l.queue with
      | [] => ([], none)
      | t :: queue =>
        let t := { t with ahead := l.cursor.place.window.ahead }
        if t.kind = .streamEnd then ([t], none)
        else
          let (tokens, fault) := deliver steps { l with queue, taken := l.taken + 1 }
          (t :: tokens, fault)
    | .ok none =>
      match l.fetch with
      | .error e => ([], some e)
      | .ok fetched => deliver steps fetched

end Lexer

/-- The tokens of a text, up to its end or to the first fault in it. Every glyph gives rise to
a few tokens at most, so the bound on the steps is never reached. -/
def Source.tokens (src : Source) : List Token × Option TextError :=
  Lexer.deliver (8 * src.glyphs.length + 64)
    { cursor := ⟨{ window := { runs := src.runs } }, src.glyphs⟩ }

end DomTemplate.Yaml
