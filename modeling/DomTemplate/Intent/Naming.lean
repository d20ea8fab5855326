import DomTemplate.Markup.Element
import DomTemplate.Template.Node

/-! The names of created elements: a stem taken from the tag, and a number that counts the
elements of that stem. -/

namespace DomTemplate
open Ascii

/-- A byte of a name: letters in lower case, digits and underscores are kept. -/
def stemByte (b : UInt8) : UInt8 :=
  if isLower b || isDigit b || b == underscore then b
  else if isUpper b then Ascii.lower b
  else underscore

def Part.stem : Part → Bytes
  | .raw value => value.map stemByte
  | _ => []

/-- The stem of a tag name: its literal pieces, or `el` if it has none. -/
def tagStem (name : List Part) : Bytes :=
  let stem := name.flatMap Part.stem
  if stem.isEmpty then utf8 "el" else stem

/-- The text of a name without code. -/
def staticName? : List Part → Option Bytes
  | [] => some []
  | .raw value :: rest => (staticName? rest).map (value ++ ·)
  | _ :: _ => none

/-- The element has no content and no closing tag. -/
def isVoidName (name : List Part) : Bool := (staticName? name).any Markup.isVoid

/-- The name of the next element of a stem, where `issued` are the stems so far. -/
def elementName (elementPrefix : Bytes) (issued : List Bytes) (stem : Bytes) : Bytes :=
  elementPrefix ++ stem ++ [underscore] ++ Bytes.decimal (issued.count stem + 1)

end DomTemplate
