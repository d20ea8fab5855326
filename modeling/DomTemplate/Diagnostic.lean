import DomTemplate.Error

/-! Errors as they are shown to a user: the message under the name of its file, then the
source line it is about with a caret below the column. -/

namespace DomTemplate
open Ascii

/-- A message with the place it is about. -/
structure Diagnostic where
  message : Bytes
  position : Option Pos
  deriving DecidableEq, Repr

namespace Diagnostic

def ofError (e : TemplateError) : Diagnostic := ⟨e.message, e.position?⟩

/-- The same problem reported from within `context`. -/
def within (context : Bytes) (d : Diagnostic) : Diagnostic :=
  { d with message := context ++ utf8 ": " ++ d.message }

/-- Line `n` of `src`, counted from one, without the carriage returns at its end. -/
def sourceLine? (src : Bytes) (n : Int) : Option Bytes :=
  if n < 1 then none
  else ((Bytes.splitOn lf src)[n.toNat - 1]?).map (Bytes.dropWhileRight (· == cr))

/-- White space as wide as the part of `line` before column `col`; tabs are kept. -/
def caretIndent (line : Bytes) (col : Int) : Bytes :=
  (line.take (col - 1).toNat).map fun b => if b = tab then tab else space

/-- `n` in a field of at least four places. -/
def lineNumber (n : Int) : Bytes :=
  let digits := Bytes.decimalInt n
  Bytes.replicate (4 - digits.length) space ++ digits

/-- The source line of a position and the caret line below it. -/
def excerpt (src : Bytes) (pos : Pos) : Bytes :=
  match sourceLine? src pos.line with
  | none => []
  | some line =>
    let number := lineNumber pos.line
    number ++ utf8 " | " ++ line ++ [lf] ++
      Bytes.replicate number.length space ++ utf8 " | " ++ caretIndent line pos.col ++ utf8 "^\n"

/-- The whole report on the file at `path`. -/
def render (path src : Bytes) (d : Diagnostic) : Bytes :=
  path ++ utf8 ": error: " ++ d.message ++ [lf] ++
    match d.position with
    | some pos => excerpt src pos
    | none => []

end Diagnostic
end DomTemplate
