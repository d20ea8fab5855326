import DomTemplate.Bytes

/-! What a template asks of the document, before any output language: elements to create,
attributes to set, text to add and code to run. A container is the content of one scope,
with the reference of the document node that the content goes to. Absent entries can
only be put in by hand. -/

namespace DomTemplate

inductive AttrKind where
  | value
  | event
  | flag
  deriving DecidableEq, Repr

namespace AttrKind

def render : AttrKind → Bytes
  | value => utf8 "value"
  | event => utf8 "event"
  | flag => utf8 "bool"

def ofInt (n : Int) : AttrKind := if n = 1 then event else if n = 2 then flag else value

end AttrKind

structure Container (α : Type) where
  target : Bytes
  nodes : List α

inductive Intent where
  | absent
  /-- Nothing to do. -/
  | ignore
  /-- Literal text, or a literal piece of a name or a value. -/
  | content (text : Bytes)
  /-- Code whose value is shown as text or put into a name or a value. -/
  | expression (code : Bytes)
  /-- Code to run as it stands. -/
  | statement (code : Bytes)
  /-- A new element called `ref`, with the pieces of its name and its attributes. -/
  | create (ref : Bytes) (tag setup : Option (Container Intent))
  | container (content : Container Intent)
  /-- An attribute of `target`. The name of an event lacks its `on`; a flag has no value. -/
  | attr (target : Bytes) (kind : AttrKind) (name value : Option (Container Intent))

namespace Intent

/-- How an entry is described where it does not belong. -/
def describe : Intent → Bytes
  | absent => utf8 "<nil>"
  | ignore => utf8 "*ir.Ignore"
  | content _ => utf8 "*ir.Content"
  | expression _ => utf8 "*ir.Expression"
  | statement _ => utf8 "*ir.Statement"
  | create .. => utf8 "*ir.Create"
  | container _ => utf8 "*ir.Container"
  | attr .. => utf8 "*ir.Attribute"

def isIgnore : Intent → Bool
  | ignore => true
  | _ => false

mutual

/-- The number of elements created, those inside names and attributes aside. -/
def elements : Intent → Nat
  | create .. => 1
  | container c => elementsIn c
  | _ => 0

def elementsIn : Container Intent → Nat
  | ⟨_, nodes⟩ => elementsOf nodes

def elementsOf : List Intent → Nat
  | [] => 0
  | n :: ns => elements n + elementsOf ns

end

end Intent
end DomTemplate
