import DomTemplate.Markup.Element

/-! How far the content of a raw element reaches. It ends before the element's
closing tag; in a script, a closing tag inside `<!-- <script> ... -->` does not
count. Each span is what was read and what is left. -/

namespace DomTemplate.Markup
open Ascii

/-- A byte that ends a tag name. -/
def endsName (b : UInt8) : Bool := isTagSpace b || b == slash || b == gt

/-- `s` starts with `name`, in any case, as a whole tag name. -/
def startsName (name s : Bytes) : Bool :=
  Bytes.startsWithFold s name &&
    match s.drop name.length with
    | b :: _ => endsName b
    | [] => false

/-- A closing tag of the element `name` starts here. -/
def closesHere (name : Bytes) : Bytes → Bool
  | a :: b :: rest => a == lt && b == slash && startsName name rest
  | _ => false

def rawSpan (name : Bytes) : Bytes → Bytes × Bytes
  | [] => ([], [])
  | c :: cs =>
    if closesHere name (c :: cs) then ([], c :: cs)
    else
      let (text, rest) := rawSpan name cs
      (c :: text, rest)

theorem rawSpan_append (name s : Bytes) : (rawSpan name s).1 ++ (rawSpan name s).2 = s := by
  induction s with
  | nil => rfl
  | cons c cs ih =>
    rw [rawSpan]
    split
    · rfl
    · simp only [List.cons_append, ih]

/-- Where a script stands: outside comments, inside the opener of one with so many bytes
to go, in a comment, or in a script inside a comment, with the dashes just read. -/
inductive ScriptState where
  | plain
  | opening (left : Nat)
  | escaped (dashes : Nat)
  | nested (dashes : Nat)
  deriving DecidableEq, Repr

namespace ScriptState

/-- The state in a comment after a `<` that is followed by `rest`. -/
def afterAngle (rest : Bytes) : ScriptState :=
  match rest with
  | [] => escaped 0
  | b :: _ =>
    if b = slash then escaped 0
    else if !isLetter b then plain
    else if startsName RawElement.script.name rest then nested 0
    else escaped 0

/-- The state after `c`, which is followed by `rest` and ends nothing. -/
def next (c : UInt8) (rest : Bytes) : ScriptState → ScriptState
  | plain => if c = lt ∧ (utf8 "!--").isPrefixOf rest then opening 3 else plain
  | opening left => if left ≤ 1 then escaped 2 else opening (left - 1)
  | escaped dashes =>
    if c = dash then escaped (dashes + 1)
    else if c = gt ∧ 2 ≤ dashes then plain
    else if c = lt then afterAngle rest
    else escaped 0
  | nested dashes =>
    if c = dash then nested (dashes + 1)
    else if c = gt ∧ 2 ≤ dashes then plain
    else if closesHere RawElement.script.name (c :: rest) then escaped 0
    else nested 0

def isNested : ScriptState → Bool
  | nested _ => true
  | _ => false

end ScriptState

def scriptSpan : ScriptState → Bytes → Bytes × Bytes
  | _, [] => ([], [])
  | state, c :: cs =>
    if !state.isNested && closesHere RawElement.script.name (c :: cs) then ([], c :: cs)
    else
      let (text, rest) := scriptSpan (state.next c cs) cs
      (c :: text, rest)

theorem scriptSpan_append (state : ScriptState) (s : Bytes) :
    (scriptSpan state s).1 ++ (scriptSpan state s).2 = s := by
  induction s generalizing state with
  | nil => rfl
  | cons c cs ih =>
    rw [scriptSpan]
    split
    · rfl
    · simp only [List.cons_append, ih]

/-- The content of `element` at the start of `s`, and the rest. -/
def RawElement.span (element : RawElement) (s : Bytes) : Bytes × Bytes :=
  match element with
  | .plaintext => (s, [])
  | .script => scriptSpan .plain s
  | _ => rawSpan element.name s

theorem RawElement.span_append (element : RawElement) (s : Bytes) :
    (element.span s).1 ++ (element.span s).2 = s := by
  cases element <;> simp [RawElement.span, rawSpan_append, scriptSpan_append]

end DomTemplate.Markup
