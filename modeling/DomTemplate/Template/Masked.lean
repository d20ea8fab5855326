import DomTemplate.Error
import DomTemplate.Template.CodeSpan

/-! A template with its code blocks masked. The source is cut into pieces: bytes kept as
they are, escapes, and code blocks. Each piece is written one way in the source and
shown another way in the masked text, where a block is a mark that holds its number and
no markup. The source and the masked text are the pieces put end to end, so that every
offset in one has its offset in the other. -/

namespace DomTemplate
open Ascii

/-- Opens the mark of a code block; the character U+E000. -/
def markOpen : Bytes := [0xEE, 0x80, 0x80]

/-- Closes the mark of a code block; the character U+E001. -/
def markClose : Bytes := [0xEE, 0x80, 0x81]

/-- Stands before a mark that takes the place of a tag name, so that the tag has a name. -/
def tagLead : Bytes := [lowerX]

structure Block where
  number : Nat
  kind : CodeKind
  /-- The code, without delimiters and the white space around it. -/
  source : Bytes
  /-- The block as written. -/
  written : Bytes
  /-- The mark follows `tagLead`. -/
  lead : Bool
  deriving DecidableEq, Repr

def mark (number : Nat) : Bytes := markOpen ++ Bytes.decimal number ++ markClose

def Block.shown (b : Block) : Bytes := (if b.lead then tagLead else []) ++ mark b.number

inductive Piece where
  | byte (b : UInt8)
  | escape (written shown : Bytes)
  | block (b : Block)
  deriving DecidableEq, Repr

namespace Piece

def written : Piece → Bytes
  | byte b => [b]
  | escape written _ => written
  | block b => b.written

def shown : Piece → Bytes
  | byte b => [b]
  | escape _ shown => shown
  | block b => b.shown

end Piece

abbrev Masked := List Piece

namespace Masked

/-- The text from which the pieces were cut. -/
def source (m : Masked) : Bytes := m.flatMap Piece.written

/-- The text with its code blocks masked. -/
def text (m : Masked) : Bytes := m.flatMap Piece.shown

/-- The source offset that byte `off` of the masked text comes from: a piece that is
shown as it is written keeps its bytes apart, any other piece counts from its start. -/
def sourceOffset : Masked → (off : Nat) → Nat
  | [], off => off
  | p :: ps, off =>
    if off < p.shown.length then 0
    else p.written.length + sourceOffset ps (off - p.shown.length)

/-- The code blocks with the offsets at which they start, the first piece being at `start`. -/
def blocksFrom (start : Nat) : Masked → List (Nat × Block)
  | [] => []
  | .block b :: ps => (start, b) :: blocksFrom (start + b.written.length) ps
  | p :: ps => blocksFrom (start + p.written.length) ps

def blocks (m : Masked) : List (Nat × Block) := blocksFrom 0 m

end Masked

/-- Why a text cannot be masked, and the offset of the block at fault. -/
structure MaskFault where
  offset : Nat
  fault : SourceFault
  deriving DecidableEq, Repr

/-- The masked text so far, last byte first, ends in `<` or `</`. -/
def endsInTagOpen : Bytes → Bool
  | a :: b :: _ => a == lt || (a == slash && b == lt)
  | [a] => a == lt
  | [] => false

/-- The kind of a block between braces and its code. -/
def braceCode (inner : Bytes) : CodeKind × Bytes :=
  match inner with
  | c :: cs => if c = equals then (.expression, cs) else (.statement, c :: cs)
  | [] => (.statement, [])

/-- The kind of a block between angle brackets and its code; a dash next to a delimiter
belongs to the delimiter. -/
def erbCode (inner : Bytes) : CodeKind × Bytes :=
  match Bytes.trimSuffix [dash] (Bytes.trimPrefix [dash] inner) with
  | c :: cs =>
    if c = equals then (.expression, cs)
    else if c = sharp then (.comment, cs)
    else (.statement, c :: cs)
  | [] => (.statement, [])

/-- Where a scan of a source stands. -/
structure MaskState where
  /-- Bytes read. -/
  offset : Nat := 0
  /-- Blocks read. -/
  number : Nat := 0
  /-- The masked text so far, last byte first. -/
  before : Bytes := []

/-- The state after a piece. -/
def MaskState.push (state : MaskState) (p : Piece) : MaskState where
  offset := state.offset + p.written.length
  number := match p with
    | .block _ => state.number + 1
    | _ => state.number
  before := p.shown.reverse ++ state.before

/-- The piece for a block of the given kind and code that is followed by `rest`. -/
def MaskState.blockPiece (state : MaskState) (delimiters : Delimiters)
    (kindCode : CodeKind × Bytes) (written rest : Bytes) : Except MaskFault Piece :=
  let source := kindCode.2.trim
  if source.isEmpty && kindCode.1 != .comment then .error ⟨state.offset, .emptyBlock⟩
  else .ok (.block
    { number := state.number, kind := kindCode.1, source, written,
      lead := endsInTagOpen state.before && closesTag delimiters false false rest })

end DomTemplate
