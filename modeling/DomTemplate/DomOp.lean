import DomTemplate.Error
import DomTemplate.Intent
import DomTemplate.Target
import DomTemplate.Text.Blank

/-! Document operations: the steps that build a template's nodes, in order, each naming the
nodes it works on by reference. Intents become operations, and operations statements of
the output language. -/

namespace DomTemplate
open Ascii

inductive DomOp where
  /-- Bind `ref` to a new element. -/
  | create (ref : Bytes) (tag : List Fragment)
  | appendChild (parent child : Bytes)
  | addText (target : Bytes) (value : Fragment)
  | setAttribute (target : Bytes) (name value : List Fragment)
  | setFlag (target : Bytes) (name : List Fragment)
  | listen (target : Bytes) (event : List Fragment) (handler : Bytes)
  /-- Code of the template, to run as it stands. -/
  | run (code : Bytes)
  deriving DecidableEq, Repr

/-- Neighbouring literal texts as one. -/
def mergeLiterals : List Fragment → List Fragment
  | .literal a :: rest =>
    match mergeLiterals rest with
    | .literal b :: rest => .literal (a ++ b) :: rest
    | rest => .literal a :: rest
  | f :: rest => f :: mergeLiterals rest
  | [] => []

namespace Intent

mutual

/-- The pieces of a text, read from a place where only text may stand. -/
def pieces : Intent → Except Crash (List Fragment)
  | ignore => .ok []
  | content text => .ok [.literal text]
  | expression code => .ok [.code code]
  | container c => piecesIn c
  | absent => .error (.notText (describe absent))
  | statement code => .error (.notText (describe (statement code)))
  | create ref tag setup => .error (.notText (describe (create ref tag setup)))
  | attr target kind name value => .error (.notText (describe (attr target kind name value)))

def piecesIn : Container Intent → Except Crash (List Fragment)
  | ⟨_, nodes⟩ => piecesOf nodes

def piecesOf : List Intent → Except Crash (List Fragment)
  | [] => .ok []
  | n :: ns => do return (← pieces n) ++ (← piecesOf ns)

end

/-- The text of a name or a value, neighbouring literals merged. -/
def fragments : Option (Container Intent) → Except Crash (List Fragment)
  | none => .ok []
  | some c => (piecesIn c).map mergeLiterals

/-- The code of a handler: every piece as written. -/
def handlerCode (handler : Option (Container Intent)) : Except Crash Bytes :=
  (fragments handler).map fun fs => fs.flatMap Fragment.text

/-- The operation of an attribute. -/
def attrOp (target : Bytes) (kind : AttrKind) (name value : Option (Container Intent)) :
    Except Crash DomOp := do
  let name ← fragments name
  match kind with
  | .event => return .listen target name (← handlerCode value)
  | .flag => return .setFlag target name
  | .value => return .setAttribute target name (← fragments value)

mutual

/-- The operations of an intent whose content goes to `current` and whose elements are
appended to `parent`. -/
def ops (current parent : Bytes) : Intent → Except Crash (List DomOp)
  | absent => .ok []
  | ignore => .ok []
  | statement code => .ok [.run code]
  | content text => .ok [.addText current (.literal text)]
  | expression code => .ok [.addText current (.code code)]
  | create ref tag setup => do
    let tag ← fragments tag
    return .create ref tag :: (← opsIn? current setup) ++ [.appendChild parent ref]
  | container c => opsIn current c
  | attr target kind name value => (attrOp target kind name value).map ([·])

def opsIn? (current : Bytes) : Option (Container Intent) → Except Crash (List DomOp)
  | none => .ok []
  | some c => opsIn current c

/-- The operations of a container that stands where content goes to `current`. -/
def opsIn (current : Bytes) : Container Intent → Except Crash (List DomOp)
  | ⟨target, nodes⟩ => opsOf target current nodes

def opsOf (current parent : Bytes) : List Intent → Except Crash (List DomOp)
  | [] => .ok []
  | n :: ns => do return (← ops current parent n) ++ (← opsOf current parent ns)

end

end Intent

/-- How text reaches the document. -/
inductive TextMode where
  /-- A text node for each fragment. -/
  | node
  /-- Each fragment is added to the text of its target. -/
  | accumulate
  deriving DecidableEq, Repr

namespace TextMode

def name : TextMode → Bytes
  | node => utf8 "node"
  | accumulate => utf8 "accumulate"

/-- The mode called `name`; text nodes if it is empty. -/
def ofName? (name : Bytes) : Option TextMode :=
  if name = [] ∨ name = utf8 "node" then some node
  else if name = utf8 "accumulate" then some accumulate
  else none

end TextMode

/-- How operations are written. -/
structure Exporter where
  target : Target
  /-- The reference that top-level elements are appended to. -/
  root : Bytes
  /-- The reference that creates elements and text nodes. -/
  document : Bytes
  text : TextMode

namespace Exporter

/-- An exporter with `root` and `document` in place of empty references. -/
def withDefaults (target : Target) (root document : Bytes) (text : TextMode) : Exporter where
  target
  root := if root.isEmpty then utf8 "root" else root
  document := if document.isEmpty then utf8 "document" else document
  text

/-- A tag name; one without code is a static literal. -/
def tagName (e : Exporter) (tag : List Fragment) : Bytes :=
  if tag.any Fragment.isCode then e.target.literal tag
  else e.target.static (tag.flatMap Fragment.text)

/-- The statement of an operation. -/
def statement (e : Exporter) : DomOp → Bytes
  | .create ref tag => e.target.createElement ref (e.tagName tag) e.document
  | .appendChild parent child => e.target.appendChild parent child
  | .addText target value =>
    match e.text with
    | .node => e.target.appendText target (e.target.literal [value]) e.document
    | .accumulate => e.target.accumulateText target (e.target.literal [value])
  | .setAttribute target name value =>
    e.target.setAttribute target (e.target.literal name) (e.target.literal value)
  | .setFlag target name => e.target.setFlag target (e.target.literal name)
  | .listen target event handler =>
    e.target.addEventListener target (e.target.literal event) handler
  | .run code => code

/-- One line for each operation. -/
def lines (e : Exporter) (ops : List DomOp) : Bytes :=
  ops.flatMap fun op => e.statement op ++ [lf]

/-- The code that carries out an intent. -/
def render (e : Exporter) (n : Intent) : Except Crash Bytes :=
  (n.ops e.root e.root).map fun ops => (e.lines ops).trim

end Exporter
end DomTemplate
