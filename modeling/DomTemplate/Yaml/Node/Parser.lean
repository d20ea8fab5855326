import DomTemplate.Yaml.Tag
import DomTemplate.Yaml.Token.Lexer

/-! From tokens to the first document of a text. -/

namespace DomTemplate.Yaml
open Ascii

structure ParseState where
  tokens : List Token
  /-- What comes after the tokens, unless they end the text. -/
  fault : Option TextError
  /-- A fault of the text that was met before it was reached. -/
  ahead : Option SourceFault := none
  /-- Handles and what they stand for. -/
  handles : List (Bytes × Bytes) := []
  /-- The numbers of the nodes that anchors name, the latest first. -/
  anchors : List (Bytes × Nat) := []
  anchored : List (Nat × Node) := []
  /-- The number of references so far. -/
  references : Nat := 0

abbrev Parse := StateT ParseState (Except Error)

namespace Parse

def fail {α : Type} (e : Error) : Parse α := fun _ => .error e

/-- A fault at a line, in a construct that starts at another. -/
def failIn {α : Type} (construct place : Nat) (fault : Fault) : Parse α :=
  fail (.unreadable (.form ⟨reportedLine construct place, fault⟩))

/-- The nesting is more than the bound on it, which is never reached. -/
def tooDeep {α : Type} : Parse α := fail (.unreadable (.form ⟨0, .tooDeep⟩))

/-- The next token, which stays. -/
def peek : Parse Token := fun s =>
  match s.tokens with
  | t :: _ => .ok (t, { s with ahead := t.ahead })
  | [] => .error (.unreadable (s.fault.getD (.form ⟨0, .noToken⟩)))

def skip : Parse Unit := fun s => .ok ((), { s with tokens := s.tokens.tail })

/-- The end of a step: a scalar, a reference, or the start or end of a collection or of the
document. A fault that was met ahead of it counts from here on. -/
def settle : Parse Unit := fun s =>
  match s.ahead with
  | none => .ok ((), s)
  | some fault => .error (.unreadable (.source fault))

/-- The tag that a handle and a suffix stand for. -/
def expandTag (start place : Nat) (handle suffix : Bytes) : Parse Bytes := do
  if handle.isEmpty then return suffix
  else
    match (← get).handles.find? fun entry => entry.1 == handle with
    | some (_, expansion) =>
      if (expansion ++ suffix).isEmpty then failIn start place .undefinedHandle
      else return expansion ++ suffix
    | none => failIn start place .undefinedHandle

/-- What stands before a node. -/
structure Properties where
  line : Nat
  anchor : Option Bytes := none
  tag : Bytes := []

def Properties.isEmpty (p : Properties) : Bool := p.anchor.isNone && p.tag.isEmpty

/-- The anchor and the tag of a node, in any order. -/
def properties : Parse Properties := do
  let first ← peek
  match first.kind with
  | .anchor name =>
    skip
    let second ← peek
    match second.kind with
    | .tag handle suffix =>
      skip
      let _ ← peek
      return ⟨first.line, some name, ← expandTag first.line second.line handle suffix⟩
    | _ => return ⟨first.line, some name, []⟩
  | .tag handle suffix =>
    skip
    let second ← peek
    match second.kind with
    | .anchor name =>
      skip
      let _ ← peek
      return ⟨first.line, some name, ← expandTag first.line first.line handle suffix⟩
    | _ => return ⟨first.line, none, ← expandTag first.line first.line handle suffix⟩
  | _ => return ⟨first.line, none, []⟩

/-- Start a node, and give that of an anchor a number. -/
def register (anchor : Option Bytes) : Parse (Option Nat) := do
  settle
  match anchor with
  | none => return none
  | some name =>
    let s ← get
    let number := s.anchors.length
    set { s with anchors := (name, number) :: s.anchors }
    return some number

/-- Keep an anchored node. -/
def keep (number : Option Nat) (n : Node) : Parse Node := fun s =>
  match number with
  | none => .ok (n, s)
  | some k => .ok (n, { s with anchored := (k, n) :: s.anchored })

/-- The tag of a node that is written with `written`. -/
def tagOr (default written : Bytes) : Bytes :=
  if written.isEmpty || written = [bang] then default else Tag.short written

/-- A scalar that is left out. -/
def emptyScalar (line : Nat) : Parse Node := do
  settle
  return .scalar (line + 1) Tag.null []

/-- The tag of a scalar without one. -/
def scalarTag (text : Bytes) (plain : Bool) : Bytes :=
  if !plain then Tag.string else if text = utf8 "<<" then Tag.merge else implicitTag text

def reference (line : Nat) (name : Bytes) : Parse Node := do
  skip
  settle
  let s ← get
  match s.anchors.find? fun entry => entry.1 == name with
  | some (_, anchored) =>
    set { s with references := s.references + 1 }
    return .reference (line + 1) name s.references anchored
  | none => fail (.unknownAnchor name)

/-- What kinds of nodes may stand at a place. -/
inductive Context where
  /-- Inside brackets. -/
  | flow
  | block
  /-- In a block mapping, whose sequences need no indentation. -/
  | entry
  deriving DecidableEq, Repr

mutual

/-- A node. `depth` bounds the recursion. -/
def node : (depth : Nat) → Context → Parse Node
  | 0, _ => tooDeep
  | depth + 1, context => do
    let first ← peek
    match first.kind with
    | .reference name => reference first.line name
    | _ =>
      let p ← properties
      let t ← peek
      match t.kind, context with
      | .blockEntry, .entry => do
        let number ← register p.anchor
        keep number (.sequence (p.line + 1) (tagOr Tag.sequence p.tag) (← indentless depth))
      | .scalar text plain, _ => do
        let number ← register p.anchor
        skip
        keep number (.scalar (p.line + 1) (tagOr (scalarTag text plain) p.tag) text)
      | .flowSequenceStart, _ => do
        let number ← register p.anchor
        skip
        keep number (.sequence (p.line + 1) (tagOr Tag.sequence p.tag)
          (← flowSequence depth t.line true))
      | .flowMappingStart, _ => do
        let number ← register p.anchor
        skip
        keep number (.mapping (p.line + 1) (tagOr Tag.mapping p.tag)
          (← flowMapping depth t.line true))
      | kind, context => do
        if kind = .blockSequenceStart && context ≠ .flow then
          let number ← register p.anchor
          skip
          keep number (.sequence (p.line + 1) (tagOr Tag.sequence p.tag)
            (← blockSequence depth t.line))
        else if kind = .blockMappingStart && context ≠ .flow then
          let number ← register p.anchor
          skip
          keep number (.mapping (p.line + 1) (tagOr Tag.mapping p.tag)
            (← blockMapping depth t.line))
        else if !p.isEmpty then
          let number ← register p.anchor
          keep number (.scalar (p.line + 1) (tagOr (scalarTag [] true) p.tag) [])
        else failIn p.line t.line .noContent

/-- The items of a sequence on the indentation of the mapping around it. -/
def indentless : (depth : Nat) → Parse (List Node)
  | 0 => tooDeep
  | depth + 1 => do
    let t ← peek
    if t.kind ≠ .blockEntry then
      settle
      return []
    else
      skip
      let next ← peek
      let item ←
        if [.blockEntry, .key, .value, .blockEnd].contains next.kind then emptyScalar t.line
        else node depth .block
      return item :: (← indentless depth)

def blockSequence : (depth start : Nat) → Parse (List Node)
  | 0, _ => tooDeep
  | depth + 1, start => do
    let t ← peek
    if t.kind = .blockEntry then
      skip
      let next ← peek
      let item ←
        if [.blockEntry, .blockEnd].contains next.kind then emptyScalar t.line
        else node depth .block
      return item :: (← blockSequence depth start)
    else if t.kind = .blockEnd then
      skip
      settle
      return []
    else failIn start t.line .noDash

/-- The keys and values of a block mapping. -/
def blockMapping : (depth start : Nat) → Parse (List Node)
  | 0, _ => tooDeep
  | depth + 1, start => do
    let t ← peek
    if t.kind = .key then
      skip
      let next ← peek
      let key ←
        if [.key, .value, .blockEnd].contains next.kind then emptyScalar t.line
        else node depth .entry
      let value ← blockValue depth
      return key :: value :: (← blockMapping depth start)
    else if t.kind = .blockEnd then
      skip
      settle
      return []
    else failIn start t.line .noKey

def blockValue : (depth : Nat) → Parse Node
  | 0 => tooDeep
  | depth + 1 => do
    let t ← peek
    if t.kind ≠ .value then emptyScalar t.line
    else
      skip
      let next ← peek
      if [.key, .value, .blockEnd].contains next.kind then emptyScalar t.line
      else node depth .entry

/-- The items of a sequence in brackets. -/
def flowSequence : (depth start : Nat) → (first : Bool) → Parse (List Node)
  | 0, _, _ => tooDeep
  | depth + 1, start, first => do
    let t ← peek
    if t.kind = .flowSequenceEnd then
      skip
      settle
      return []
    else if !first && t.kind ≠ .flowEntry then failIn start t.line .noSequenceEnd
    else
      if !first then skip
      let t ← peek
      if t.kind = .key then
        skip
        settle
        let pair ← flowPair depth
        return .mapping (t.line + 1) Tag.mapping pair :: (← flowSequence depth start false)
      else if t.kind = .flowSequenceEnd then
        skip
        settle
        return []
      else
        let item ← node depth .flow
        return item :: (← flowSequence depth start false)

/-- A key and a value on their own in a sequence; an empty key takes the token after it. -/
def flowPair : (depth : Nat) → Parse (List Node)
  | 0 => tooDeep
  | depth + 1 => do
    let t ← peek
    let key ←
      if [.value, .flowEntry, .flowSequenceEnd].contains t.kind then do
        skip
        emptyScalar t.line
      else node depth .flow
    let t ← peek
    let value ←
      if t.kind = .value then do
        skip
        let next ← peek
        if [.flowEntry, .flowSequenceEnd].contains next.kind then emptyScalar next.line
        else node depth .flow
      else emptyScalar t.line
    let _ ← peek
    settle
    return [key, value]

/-- The keys and values of a mapping in braces. -/
def flowMapping : (depth start : Nat) → (first : Bool) → Parse (List Node)
  | 0, _, _ => tooDeep
  | depth + 1, start, first => do
    let t ← peek
    if t.kind = .flowMappingEnd then
      skip
      settle
      return []
    else if !first && t.kind ≠ .flowEntry then failIn start t.line .noMappingEnd
    else
      if !first then skip
      let t ← peek
      if t.kind = .key then
        skip
        let next ← peek
        let key ←
          if [.value, .flowEntry, .flowMappingEnd].contains next.kind then
            emptyScalar next.line
          else node depth .flow
        let value ← flowValue depth
        return key :: value :: (← flowMapping depth start false)
      else if t.kind = .flowMappingEnd then
        skip
        settle
        return []
      else
        let key ← node depth .flow
        let next ← peek
        let value ← emptyScalar next.line
        return key :: value :: (← flowMapping depth start false)

def flowValue : (depth : Nat) → Parse Node
  | 0 => tooDeep
  | depth + 1 => do
    let t ← peek
    if t.kind = .value then
      skip
      let next ← peek
      if [.flowEntry, .flowMappingEnd].contains next.kind then emptyScalar next.line
      else node depth .flow
    else emptyScalar t.line

end

/-- Directives in front of a document. `seen` tells that the version has been given. -/
def directives : (steps : Nat) → (seen : Bool) → Parse Unit
  | 0, _ => return
  | steps + 1, seen => do
    let t ← peek
    match t.kind with
    | .version major minor =>
      if seen then failIn 0 t.line .repeatedVersion
      else if major ≠ 1 || minor ≠ 1 then failIn 0 t.line .incompatibleVersion
      else
        skip
        directives steps true
    | .tagDirective handle expansion =>
      if (← get).handles.any fun entry => entry.1 == handle then failIn 0 t.line .repeatedTag
      else
        modify fun s => { s with handles := s.handles ++ [(handle, expansion)] }
        skip
        directives steps seen
    | _ => return

/-- The handles that every document has, unless directives have given them a meaning. -/
def standardHandles : Parse Unit := modify fun s =>
  { s with handles := s.handles ++ [([bang], [bang]), ([bang, bang], Tag.standard)] }

/-- The end of the document `root`. -/
def documentEnd (root : Node) : Parse (Option Node) := do
  let _ ← peek
  settle
  return some root

/-- The first document, absent if the text has none. -/
def document : Parse (Option Node) := do
  let _ ← peek
  settle
  skip
  let t ← peek
  let depth := 4 * (← get).tokens.length + 8
  match t.kind with
  | .streamEnd =>
    settle
    return none
  | .version .. | .tagDirective .. | .documentStart =>
    directives depth false
    standardHandles
    let t ← peek
    if t.kind ≠ .documentStart then failIn 0 t.line .noDocumentStart
    else
      skip
      settle
      let t ← peek
      match t.kind with
      | .version .. | .tagDirective .. | .documentStart | .documentEnd | .streamEnd =>
        documentEnd (← emptyScalar t.line)
      | _ => documentEnd (← node depth .block)
  | _ =>
    standardHandles
    settle
    documentEnd (← node depth .block)

end Parse

/-- The first document of a text. -/
def Document.parse? (s : Bytes) : Except Error (Option Document) := do
  let (tokens, fault) := (Source.ofBytes s).tokens
  let (root, state) ← Parse.document.run { tokens, fault }
  return root.map fun root => ⟨root, state.anchored⟩

end DomTemplate.Yaml
