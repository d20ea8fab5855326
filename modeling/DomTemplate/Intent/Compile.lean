import DomTemplate.Intent.Naming
import DomTemplate.Scope
import DomTemplate.Text.Blank

/-! From templates to intents. An opening tag opens an element scope and its closing tag
closes it, so that containers nest as elements do. Text runs, names and attribute lists
are compiled in transparent scopes, which share the target of the enclosing element. -/

namespace DomTemplate
open Ascii

structure CompileOptions where
  /-- The reference that top-level nodes are added to. -/
  root : Bytes
  /-- Stands before every element name. -/
  elementPrefix : Bytes
  /-- Turns an element name into a reference of the output language. -/
  ref : Bytes → Bytes := id

structure CompileState where
  scopes : Scopes
  /-- The stems of the elements named so far. -/
  issued : List Bytes := []

abbrev Compile := StateT CompileState (Except TemplateError)

namespace Compile

def fail {α : Type} (e : TemplateError) : Compile α := fun _ => .error e

def current : Compile Frame := fun s => s.scopes.current.map fun f => (f, s)

def append (n : Intent) : Compile Unit := fun s =>
  (s.scopes.append n).map fun scopes => ((), { s with scopes })

def pop : Compile Frame := fun s =>
  s.scopes.pop.map fun (f, scopes) => (f, { s with scopes })

def push (target : Bytes) : Compile Unit := fun s =>
  .ok ((), { s with scopes := s.scopes.push target })

def pushElement (target tag : Bytes) (pos : Pos) : Compile Unit := fun s =>
  .ok ((), { s with scopes := s.scopes.pushElement target tag pos })

def scopes : Compile Scopes := fun s => .ok (s.scopes, s)

/-- A fresh reference for an element of the given stem. -/
def freshRef (options : CompileOptions) (stem : Bytes) : Compile Bytes := fun s =>
  .ok (options.ref (elementName options.elementPrefix s.issued stem),
    { s with issued := stem :: s.issued })

/-- Compile the parts in order. The intent of a part goes to the scope that is innermost
once the part is compiled, so that an opening tag takes in the parts that follow it. -/
def each {α : Type} (compile : α → Compile Intent) : List α → Compile Unit
  | [] => pure ()
  | p :: ps => do
    let n ← compile p
    append n
    each compile ps

/-- Compile parts inside a transparent scope, which they leave as deep as they found it. -/
def inScope {α : Type} (parts : List α) (compile : α → Compile Intent) :
    Compile (Container Intent) := do
  let outer ← current
  let depth := (← scopes).length
  push outer.target
  each compile parts
  let after ← scopes
  if after.length ≠ depth + 1 then
    match after.openElement? with
    | some f => fail (.unbalancedTag f.pos f.tag [] .unclosed)
    | none => fail (.unevenScope after.length (depth + 1))
  else
    return (← pop).container

def code (block : Code) : Intent :=
  match block.kind with
  | .statement => .statement block.source.trim
  | .expression => .expression block.source.trim
  | .comment | .other _ => .ignore

/-- Literal text between two parts. White space is kept only next to an expression. -/
def literal (afterExpression beforeExpression : Bool) (value : Bytes) : Intent :=
  if value.isBlank then .ignore
  else
    let value := if afterExpression then value else value.dropWhile isBlank
    .content (if beforeExpression then value else Bytes.dropWhileRight isBlank value)

/-- Each part with whether the part before it and the part after it are expressions. -/
def withNeighbours (afterExpression : Bool) : List Part → List (Bool × Part × Bool)
  | [] => []
  | p :: ps =>
    (afterExpression, p, ps.head?.any Part.isExpression) :: withNeighbours p.isExpression ps

def textPart : Bool × Part × Bool → Compile Intent
  | (_, .absent, _) => pure .ignore
  | (afterExpression, .raw value, beforeExpression) =>
    pure (literal afterExpression beforeExpression value)
  | (_, .code block, _) => pure (code block)
  | (_, .misplaced kind, _) => fail (.unrecognizedNode {} (.misplacedInText kind))

def text (parts : List Part) : Compile Intent :=
  return .container (← inScope (withNeighbours false parts) textPart)

/-- A piece of a name or a value: literal text is kept as it is, and a statement is
refused with the given error. -/
def literalPart (refusal : TemplateError) : Part → Compile Intent
  | .absent => pure .ignore
  | .raw value => pure (if value.isEmpty then .ignore else .content value)
  | .code block => if block.kind = .statement then fail refusal else pure (code block)
  | .misplaced kind => fail (.unrecognizedNode {} (.misplaced kind))

/-- The handler of an event, used as written. -/
def handlerPart (a : Attribute) : Part → Compile Intent
  | .raw value => pure (.content value.trim)
  | .code block =>
    if block.kind = .comment then fail (.invalidAttribute a.pos a.source .compoundHandler)
    else pure (.expression block.source.trim)
  | .absent => fail (.unrecognizedNode a.pos .absent)
  | .misplaced kind => fail (.unrecognizedNode a.pos (.misplaced kind))

/-- Literal text of white space only. -/
def isBlankRaw : Part → Bool
  | .raw value => value.isBlank
  | _ => false

/-- The value of an event attribute: one code block, or one literal that names the
handler. -/
def handler (a : Attribute) : Compile (Container Intent) :=
  match a.value with
  | none => fail (.invalidAttribute a.pos a.source .missingHandler)
  | some value =>
    match value.parts.filter (!isBlankRaw ·) with
    | [] => fail (.invalidAttribute a.pos a.source .missingHandler)
    | [p] => inScope [p] (handlerPart a)
    | _ => fail (.invalidAttribute a.pos a.source .compoundHandler)

/-- What an attribute name says: an event without its `on`, or any other name. -/
inductive AttrName where
  | event (name : List Part)
  | plain (name : List Part)

def attrName : List Part → AttrName
  | .raw value :: rest =>
    match Bytes.dropPrefix? (utf8 "on") value with
    | some event => .event (.raw event :: rest)
    | none => .plain (.raw value :: rest)
  | name => .plain name

def namePart (a : Attribute) : Part → Compile Intent :=
  literalPart (.invalidAttribute a.pos a.source .statementInName)

def valuePart (a : Attribute) : Part → Compile Intent :=
  literalPart (.invalidAttribute a.pos a.source .statementInValue)

def namedAttribute (a : Attribute) (parts : List Part) : Compile Intent := do
  let target := (← current).target
  match attrName parts with
  | .event parts =>
    let name ← inScope parts (namePart a)
    if name.nodes.all Intent.isIgnore then
      fail (.invalidAttribute a.pos a.source .missingEventName)
    else
      return .attr target .event (some name) (some (← handler a))
  | .plain parts =>
    let name ← inScope parts (namePart a)
    match a.value with
    | none => return .attr target .flag (some name) none
    | some value =>
      return .attr target .value (some name) (some (← inScope value.parts (valuePart a)))

def attr : Option Attribute → Compile Intent
  | none => pure .ignore
  | some a =>
    match a.name with
    | none | some [] => fail (.unrecognizedNode a.pos .attributeWithoutName)
    | some parts => namedAttribute a parts

/-- An opening tag. The scope of a void element closes at once; any other stays open, and
what the tag creates becomes the first intent in it. -/
def openTag (options : CompileOptions) (t : Tag) (name : List Part) : Compile Intent := do
  let ref ← freshRef options (tagStem name)
  pushElement ref t.source t.pos
  let tag ← inScope name (literalPart (.unreadable t.pos .statementInTagName))
  let setup ← match t.attrs with
    | none => pure ⟨ref, []⟩
    | some attrs => inScope attrs attr
  let create := Intent.create ref (some tag) (some setup)
  if isVoidName name then
    append create
    return .container (← pop).container
  else
    return create

/-- Why the closing tag of `tag` does not match the open scopes. -/
def closingFault (scopes : Scopes) (tag : Bytes) : TagFault :=
  if (scopes.lookup? tag).isSome then .mismatch
  else if Markup.isVoid tag then .void
  else .stray

def closeTag (t : Tag) : Compile Intent := do
  let top ← current
  if top.isElement ∧ top.tag = t.source then
    return .container (← pop).container
  else
    let outer ← scopes
    fail (.unbalancedTag t.pos t.source ((outer.openElement?.map Frame.tag).getD [])
      (closingFault outer t.source))

def tag (options : CompileOptions) (t : Tag) : Compile Intent :=
  if t.closing then closeTag t
  else match t.name with
    | none | some [] => fail (.unrecognizedNode t.pos .tagWithoutName)
    | some name => openTag options t name

def node (options : CompileOptions) : Node → Compile Intent
  | .absent => pure .ignore
  | .text parts => text parts
  | .tag t => tag options t
  | .code block => pure (code block)
  | .raw value => text [.raw value]
  | .comment _ _ => pure .ignore
  | .doctype _ pos => fail (.unrecognizedNode pos .doctype)
  | .misplaced kind => fail (.unrecognizedNode {} (.misplaced kind))

end Compile

/-- The reference of the mount point when none is given. -/
def defaultRoot : Bytes := utf8 "root"

/-- The intents of a template. -/
def Document.compile (options : CompileOptions) (doc : Document) :
    Except TemplateError (Container Intent) :=
  let root := if options.root.isEmpty then defaultRoot else options.root
  (Compile.inScope doc.children (Compile.node options)
    { scopes := Scopes.ofRoot root }).map Prod.fst

end DomTemplate
