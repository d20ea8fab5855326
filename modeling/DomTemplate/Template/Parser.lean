import DomTemplate.Markup.Token
import DomTemplate.Template.Mask
import DomTemplate.Template.Mark
import DomTemplate.Template.RawAttribute

/-! Reading a template: its code blocks are masked, the masked text is read as markup, and
the blocks come back as parts wherever their marks stand, in text runs, tag names, and
attribute names and values. -/

namespace DomTemplate
open Ascii

/-- A source with its masked form. -/
structure MaskedSource where
  src : Bytes
  masked : Masked

namespace MaskedSource

/-- The place in the source of byte `off` of the masked text. -/
def pos (m : MaskedSource) (off : Nat) : Pos := Pos.ofOffset m.src (m.masked.sourceOffset off)

def expand (m : MaskedSource) (s : Bytes) : Except Failure (List Part) :=
  DomTemplate.expand m.src m.masked.blocks s

/-- The attribute written as `a` in a tag that starts at `start`. -/
def attr (m : MaskedSource) (start : Nat) (a : RawAttribute) : Except Failure Attribute := do
  let name ← m.expand (Bytes.lower a.key)
  let value ← a.value.mapM fun v => do
    return { quote := v.quote, parts := ← m.expand (Markup.Entity.decode v.text) : AttrValue }
  return { name := some name, value, pos := m.pos (start + a.offset) }

/-- The tag `raw` at offset `start`; `opener` counts the bytes before its name. -/
def tag (m : MaskedSource) (raw : Bytes) (start opener : Nat) (closing solidus : Bool) :
    Except Failure Tag := do
  let body := raw.drop opener
  let name ← m.expand (Bytes.lower (body.takeWhile (!Markup.endsName ·)))
  let attrs ←
    if closing then pure []
    else (RawAttribute.ofTag raw (body.dropWhile (!Markup.endsName ·))).mapM (m.attr start)
  return { name := some name
           attrs := if attrs.isEmpty then none else some (attrs.map some)
           closing, solidus, pos := m.pos start }

/-- The node of a token that starts at offset `start`, if it has one. -/
def node? (m : MaskedSource) (start : Nat) : Markup.Token → Except Failure (Option Node)
  | .text _ shown => do
    let parts ← m.expand shown
    return if parts.isEmpty then none else some (.text parts)
  | .startTag raw parts => do return some (.tag (← m.tag raw start 1 false parts.solidus))
  | .endTag raw => do return some (.tag (← m.tag raw start 2 true false))
  | .comment _ text => do return some (.comment (← unmask m.masked.blocks text) (m.pos start))
  | .doctype _ text => .ok (some (.doctype text (m.pos start)))
  | .unfinished _ => .error (.refused (.unreadable (m.pos start) .unfinishedTag))

/-- The nodes of the tokens from offset `start` on. -/
def nodes (m : MaskedSource) (start : Nat) : List Markup.Token → Except Failure (List Node)
  | [] => .ok []
  | t :: ts => do
    let node ← m.node? start t
    let rest ← m.nodes (start + t.raw.length) ts
    return node.toList ++ rest

end MaskedSource

/-- The offset of the first reserved character, one that marks are made of. -/
def reservedOffset? (src : Bytes) : Option Nat :=
  let at? := fun mark => (Bytes.cut? mark src).map fun (before, _) => before.length
  match at? markOpen, at? markClose with
  | some i, some j => some (min i j)
  | some i, none | none, some i => some i
  | none, none => none

/-- Read the template `src`. -/
def Document.parse (delimiters : Delimiters) (src : Bytes) : Except Failure Document :=
  match reservedOffset? src with
  | some off => .error (.refused (.unreadable (Pos.ofOffset src off) .reservedCharacter))
  | none =>
    match Masked.ofSource delimiters src with
    | .error ⟨off, fault⟩ => .error (.refused (.unreadable (Pos.ofOffset src off) fault))
    | .ok masked =>
      (MaskedSource.nodes ⟨src, masked⟩ 0 (Markup.tokens masked.text)).map Document.mk

end DomTemplate
