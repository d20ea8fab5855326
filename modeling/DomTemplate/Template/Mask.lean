import DomTemplate.Markup.RawText
import DomTemplate.Template.Masked

/-! Cutting a source into the pieces of its masked form. `\{` and `<%%` stand for the
delimiter itself. Between the start and the end tag of a script or style element a bare
brace belongs to the element, and only an expression block is code. -/

namespace DomTemplate
open Ascii

/-- Where a scan stands with respect to script and style elements. -/
inductive BraceContext where
  | markup
  /-- In the start tag of the element, or what looks like it. -/
  | opening (element : Markup.RawElement)
  | inside (element : Markup.RawElement)
  deriving DecidableEq, Repr

namespace BraceContext

/-- The element whose start tag begins at a `<` that is followed by `rest`. -/
def opened? (rest : Bytes) : Option Markup.RawElement :=
  [Markup.RawElement.script, .style].find? fun e => Markup.startsName e.name rest

/-- The context after `c`, which is followed by `rest`. -/
def next (c : UInt8) (rest : Bytes) (context : BraceContext) : BraceContext :=
  match context with
  | inside e =>
    if c = lt ∧ Bytes.startsWithFold rest (slash :: e.name) then markup else inside e
  | opening e =>
    if c = lt then (opened? rest).elim markup opening
    else if c = gt then inside e
    else opening e
  | markup => if c = lt then (opened? rest).elim markup opening else markup

def isInside : BraceContext → Bool
  | inside _ => true
  | _ => false

end BraceContext

def maskBrace (state : MaskState) (context : BraceContext) (s : Bytes) : Except MaskFault Masked :=
  match s with
  | [] => .ok []
  | c :: cs =>
    if c = backslash ∧ cs.head? = some lbrace then
      let p := Piece.escape [backslash, lbrace] [lbrace]
      (maskBrace (state.push p) context (cs.drop 1)).map (p :: ·)
    else if c = lbrace ∧ (!context.isInside ∨ cs.head? = some equals) then
      match h : braceSpan? .code 0 cs with
      | none => .error ⟨state.offset, .unterminatedBlock⟩
      | some (inner, rest) =>
        have := length_braceSpan?_lt h
        match state.blockPiece .brace (braceCode inner) (lbrace :: inner ++ [rbrace]) rest with
        | .error fault => .error fault
        | .ok p => (maskBrace (state.push p) context rest).map (p :: ·)
    else
      let p := Piece.byte c
      (maskBrace (state.push p) (context.next c cs) cs).map (p :: ·)
termination_by s.length
decreasing_by all_goals simp only [List.length_cons, List.length_drop] at *; omega

def maskErb (state : MaskState) (s : Bytes) : Except MaskFault Masked :=
  match s with
  | [] => .ok []
  | c :: cs =>
    if erbEscape.isPrefixOf (c :: cs) then
      let p := Piece.escape erbEscape erbOpen
      (maskErb (state.push p) (cs.drop 2)).map (p :: ·)
    else if erbOpen.isPrefixOf (c :: cs) then
      match h : Bytes.cut? erbClose (cs.drop 1) with
      | none => .error ⟨state.offset, .unterminatedBlock⟩
      | some (inner, rest) =>
        have := Bytes.length_cut?_lt (by decide) h
        match state.blockPiece .erb (erbCode inner) (erbOpen ++ inner ++ erbClose) rest with
        | .error fault => .error fault
        | .ok p => (maskErb (state.push p) rest).map (p :: ·)
    else
      let p := Piece.byte c
      (maskErb (state.push p) cs).map (p :: ·)
termination_by s.length
decreasing_by all_goals simp only [List.length_cons, List.length_drop] at *; omega

/-- The masked form of `src`. -/
def Masked.ofSource (delimiters : Delimiters) (src : Bytes) : Except MaskFault Masked :=
  match delimiters with
  | .brace => maskBrace {} .markup src
  | .erb => maskErb {} src

end DomTemplate
