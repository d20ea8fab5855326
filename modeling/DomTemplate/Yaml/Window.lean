import DomTemplate.Yaml.Token

/-! The part of a text that has been decoded. Every step of reading first asks for as many
characters as it looks at, so that it is known which run is decoded when: a fault counts only
if its run has been asked for. -/

namespace DomTemplate.Yaml
open Ascii

/-- What has been decoded but not read, and what is left to decode. -/
structure Window where
  /-- Characters that can be read at once; behind the end there may be more of them than the
  text has. -/
  ready : Nat := 0
  /-- The window starts with a byte order mark. It starts where reading stood when it last had
  to be filled. -/
  marked : Bool := false
  /-- The runs to come. -/
  runs : List Run
  /-- A fault met in looking ahead. -/
  ahead : Option SourceFault := none
  deriving DecidableEq, Repr

/-- A byte order mark. -/
def Glyph.isByteOrderMark (g : Glyph) : Bool := g == .char 0xFEFF

namespace Window

/-- Decode runs until `n` characters are ready. The end of the text counts as a character,
once each time that it is reached. -/
def decode (n ready : Nat) : List Run → Option SourceFault × Nat × List Run
  | [] => (none, ready + 1, [])
  | run :: runs =>
    let ready := ready + run.characters.length
    if run.fault.isSome then (run.fault, ready, [⟨[], run.fault⟩])
    else if n ≤ ready then (none, ready, runs)
    else decode n ready runs

/-- Make `n` characters ready in front of `src`, unless a fault comes first. -/
def fill (w : Window) (n : Nat) (src : List Glyph) : Option SourceFault × Window :=
  if n ≤ w.ready then (none, w)
  else
    let (fault, ready, runs) := decode n w.ready w.runs
    (fault, { w with ready, runs, marked := src.head?.any Glyph.isByteOrderMark })

end Window

/-- Where reading stands. -/
structure Place where
  mark : Mark := {}
  window : Window
  deriving DecidableEq, Repr

namespace Place

/-- The place after a glyph. -/
def after (p : Place) (g : Glyph) : Place :=
  ⟨p.mark.after g, { p.window with ready := p.window.ready - g.width }⟩

/-- Ask for `n` characters of `src`. -/
def need (p : Place) (n : Nat) (src : List Glyph) : Except TextError Place :=
  match p.window.fill n src with
  | (some fault, _) => .error (.source fault)
  | (none, window) => .ok { p with window }

/-- Look for `n` characters of `src`; a fault is only noted. -/
def look (p : Place) (n : Nat) (src : List Glyph) : Bool × Place :=
  match p.window.fill n src with
  | (some fault, window) => (false, { p with window := { window with ahead := some fault } })
  | (none, window) => (true, { p with window })

def fail {α : Type} (p : Place) (start : Mark) (fault : Fault) : Except TextError α :=
  .error (lexicalError start p.mark fault)

/-- The place after one character, whatever it is: of the pair that ends a line only the first
is skipped, and a line break does not start a line. -/
def skipMarked (p : Place) : Place :=
  ⟨{ p.mark with index := p.mark.index + 1, column := p.mark.column + 1 },
    { p.window with ready := p.window.ready - 1 }⟩

end Place
end DomTemplate.Yaml
