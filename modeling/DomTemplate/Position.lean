import DomTemplate.Bytes

/-! Places in a source text. Lines and columns count from one, and columns count bytes.
A position with line zero is no place at all. -/

namespace DomTemplate
open Ascii

structure Pos where
  offset : Int := 0
  line : Int := 0
  col : Int := 0
  deriving DecidableEq, Repr, Inhabited

namespace Pos

/-- The offset at which the line of `off` starts. -/
def lineStart (src : Bytes) (off : Nat) : Nat :=
  (src.take off).length - ((src.take off).reverse.takeWhile (· != lf)).length

/-- The place of byte `off` of `src`. -/
def ofOffset (src : Bytes) (off : Nat) : Pos where
  offset := off
  line := 1 + (src.take off).count lf
  col := off - lineStart src off + 1

/-- `line:col`, or a dash. -/
def render (p : Pos) : Bytes :=
  if p.line = 0 then utf8 "-"
  else Bytes.decimalInt p.line ++ [colon] ++ Bytes.decimalInt p.col

/-- `p` is a place in a text. -/
def isPlace (p : Pos) : Bool := 0 < p.line

end Pos
end DomTemplate
