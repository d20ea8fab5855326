import DomTemplate.Bytes

/-! Replacement of patterns in one pass from the left: at each place the first rule
whose pattern stands there applies, its output is not looked at again, and a byte
that no rule takes is kept. -/

namespace DomTemplate

/-- A pattern, which is not empty, and the text put in its place. -/
structure Rule where
  pattern : Bytes
  output : Bytes
  deriving DecidableEq, Repr

namespace Rule

def ofStrings (pattern output : String) : Rule := ⟨utf8 pattern, utf8 output⟩

/-- The first rule that applies at the start of `s`. -/
def first? (rules : List Rule) (s : Bytes) : Option Rule :=
  rules.find? fun rule => rule.pattern.isPrefixOf s

/-- Replace in `s`, whose first `skip` bytes belong to a pattern already replaced. -/
def applyFrom (rules : List Rule) : (skip : Nat) → Bytes → Bytes
  | _, [] => []
  | skip + 1, _ :: rest => applyFrom rules skip rest
  | 0, c :: rest =>
    match first? rules (c :: rest) with
    | some rule => rule.output ++ applyFrom rules (rule.pattern.length - 1) rest
    | none => c :: applyFrom rules 0 rest

def applyAll (rules : List Rule) (s : Bytes) : Bytes := applyFrom rules 0 s

end Rule
end DomTemplate
