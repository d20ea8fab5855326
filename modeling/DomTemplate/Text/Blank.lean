import DomTemplate.Text.CodePoint

/-! White space in the sense of Unicode, and the trimming of texts by it. The
blanks are listed by their encodings; no encoding is a prefix of another, so a text
starts (or ends) with at most one of them. -/

namespace DomTemplate

/-- The characters with the property White_Space. -/
def blankCodePoints : List CodePoint :=
  [0x09, 0x0A, 0x0B, 0x0C, 0x0D, 0x20, 0x85, 0xA0, 0x1680, 0x2000, 0x2001, 0x2002, 0x2003,
   0x2004, 0x2005, 0x2006, 0x2007, 0x2008, 0x2009, 0x200A, 0x2028, 0x2029, 0x202F, 0x205F, 0x3000]

namespace Bytes

def blanks : List Bytes := blankCodePoints.map CodePoint.encode

/-- What follows the member of `set` that `s` starts with. -/
def afterLeading? (set : List Bytes) (s : Bytes) : Option Bytes :=
  set.findSome? fun blank => dropPrefix? blank s

/-- Drop leading members of `set` until none is left. -/
def dropLeading (set : List Bytes) (s : Bytes) : Bytes :=
  match afterLeading? set s with
  | some rest => if rest.length < s.length then dropLeading set rest else s
  | none => s
termination_by s.length

def trimLeft (s : Bytes) : Bytes := dropLeading blanks s

def trimRight (s : Bytes) : Bytes :=
  (dropLeading (blanks.map List.reverse) s.reverse).reverse

/-- `s` without the white space around it. -/
def trim (s : Bytes) : Bytes := trimRight (trimLeft s)

/-- `s` holds white space only. -/
def isBlank (s : Bytes) : Bool := (trim s).isEmpty

end Bytes
end DomTemplate
