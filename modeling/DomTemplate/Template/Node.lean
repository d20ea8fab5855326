import DomTemplate.Position

/-! Templates as flat lists of tags, text runs, comments and doctypes in source order; how
tags nest is not decided here. A name, a value or a text run is a list of parts, literal
text or code. Absent and misplaced entries can only be put in by hand, and whatever works
on templates has an answer for them. -/

namespace DomTemplate

inductive CodeKind where
  | statement
  | expression
  | comment
  /-- A kind by number, without a meaning. -/
  | other (number : Int)
  deriving DecidableEq, Repr

namespace CodeKind

def ofInt (n : Int) : CodeKind :=
  if n = 0 then statement else if n = 1 then expression else if n = 2 then comment else other n

def render : CodeKind → Bytes
  | statement => utf8 "statement"
  | expression => utf8 "expression"
  | comment => utf8 "comment"
  | other n => utf8 "CodeKind(" ++ Bytes.decimalInt n ++ utf8 ")"

end CodeKind

/-- A code block without its delimiters. -/
structure Code where
  kind : CodeKind
  source : Bytes
  pos : Pos
  deriving DecidableEq, Repr

/-- What a misplaced entry is. -/
inductive NodeKind where
  | document | tag | tagName | attrList | attr | attrName | attrValue
  | text | code | raw | comment | doctype
  deriving DecidableEq, Repr

def NodeKind.render : NodeKind → Bytes
  | document => utf8 "*ast.Document"
  | tag => utf8 "*ast.Tag"
  | tagName => utf8 "*ast.TagName"
  | attrList => utf8 "*ast.AttrList"
  | attr => utf8 "*ast.Attribute"
  | attrName => utf8 "*ast.AttrName"
  | attrValue => utf8 "*ast.AttrValue"
  | text => utf8 "*ast.Text"
  | code => utf8 "*ast.Code"
  | raw => utf8 "*ast.RawString"
  | comment => utf8 "*ast.Comment"
  | doctype => utf8 "*ast.Doctype"

/-- A piece of a name, a value or a text run. -/
inductive Part where
  | absent
  | raw (value : Bytes)
  | code (block : Code)
  | misplaced (kind : NodeKind)
  deriving DecidableEq, Repr

namespace Part

/-- The part as written in a template with braces. -/
def source : Part → Bytes
  | raw value => value
  | code ⟨.expression, source, _⟩ => utf8 "\x7b=" ++ source ++ utf8 "\x7d"
  | code ⟨_, source, _⟩ => utf8 "\x7b" ++ source ++ utf8 "\x7d"
  | absent | misplaced _ => []

def isExpression : Part → Bool
  | code block => block.kind == .expression
  | _ => false

end Part

def partsSource (parts : List Part) : Bytes := parts.flatMap Part.source

inductive Quote where
  | double
  | single
  deriving DecidableEq, Repr

structure AttrValue where
  quote : Option Quote
  parts : List Part
  deriving DecidableEq, Repr

/-- An attribute; one without a value is bare. -/
structure Attribute where
  name : Option (List Part)
  value : Option AttrValue
  pos : Pos
  deriving DecidableEq, Repr

def Attribute.source (a : Attribute) : Bytes := partsSource (a.name.getD [])

/-- An opening or a closing tag. `solidus` records `<x/>`; whether `x` has content is
decided by its name. -/
structure Tag where
  name : Option (List Part)
  attrs : Option (List (Option Attribute))
  closing : Bool
  solidus : Bool
  pos : Pos
  deriving DecidableEq, Repr

/-- The tag name as written. -/
def Tag.source (t : Tag) : Bytes := partsSource (t.name.getD [])

inductive Node where
  | absent
  | tag (tag : Tag)
  | text (parts : List Part)
  | code (block : Code)
  | raw (value : Bytes)
  | comment (text : Bytes) (pos : Pos)
  | doctype (text : Bytes) (pos : Pos)
  | misplaced (kind : NodeKind)
  deriving DecidableEq, Repr

structure Document where
  children : List Node
  deriving DecidableEq, Repr

end DomTemplate
