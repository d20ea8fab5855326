import DomTemplate.Path
import DomTemplate.Text.Letter

/-! The class name of a view model, derived from the path of its template: the words of the
file name up to its first dot, each with a capital, and a V before a leading digit. -/

namespace DomTemplate.Page

/-- The name so far, and whether a word starts next. -/
structure NameState where
  name : List CodePoint := []
  wordStart : Bool := true

/-- Take in one character; what is no letter or digit only ends a word. -/
def NameState.push (s : NameState) (r : CodePoint) : NameState :=
  if r.isLetter || r.isDigit then
    let lead := if s.name.isEmpty && r.isDigit then [0x56] else []
    { name := s.name ++ lead ++ [if s.wordStart then r.toUpper else r], wordStart := false }
  else { s with wordStart := true }

def NameState.pushUnit (s : NameState) : TextUnit → NameState
  | .codePoint r => s.push r
  | .stray _ => { s with wordStart := true }

/-- The view model of the template at `path`. -/
def viewModelName (path : Bytes) : Bytes :=
  let name := ((Path.stem (Path.base path)).units.foldl NameState.pushUnit {}).name
  if name.isEmpty then utf8 "ViewModel" else name.flatMap CodePoint.encode

end DomTemplate.Page
