import DomTemplate.Error
import DomTemplate.Intent

/-! The stack of scopes that is open while a template is compiled. An element frame belongs
to an open tag, a transparent frame to a run of text or a name inside an element; each
collects the intents for its document node. -/

namespace DomTemplate

structure Frame where
  target : Bytes
  /-- The open tag as written; empty for a transparent frame. -/
  tag : Bytes := []
  pos : Pos := {}
  nodes : List Intent := []

namespace Frame

def isElement (f : Frame) : Bool := !f.tag.isEmpty

def append (f : Frame) (n : Intent) : Frame := { f with nodes := f.nodes ++ [n] }

def container (f : Frame) : Container Intent := ⟨f.target, f.nodes⟩

/-- The content of a frame, and the frame without it. -/
def handOver (f : Frame) : Container Intent × Frame := (f.container, { f with nodes := [] })

end Frame

/-- Open scopes, the innermost first. -/
abbrev Scopes := List Frame

namespace Scopes

def ofRoot (root : Bytes) : Scopes := [{ target := root }]

def push (scopes : Scopes) (target : Bytes) : Scopes := { target } :: scopes

def pushElement (scopes : Scopes) (target tag : Bytes) (pos : Pos) : Scopes :=
  { target, tag, pos } :: scopes

def current : Scopes → Except TemplateError Frame
  | [] => .error (.emptyScope .current)
  | f :: _ => .ok f

def pop : Scopes → Except TemplateError (Frame × Scopes)
  | [] => .error (.emptyScope .pop)
  | f :: rest => .ok (f, rest)

/-- Add an intent to the innermost scope. -/
def append (n : Intent) : Scopes → Except TemplateError Scopes
  | [] => .error (.emptyScope .current)
  | f :: rest => .ok (f.append n :: rest)

def root? (scopes : Scopes) : Option Frame := scopes.getLast?

/-- The innermost element. -/
def openElement? (scopes : Scopes) : Option Frame := scopes.find? Frame.isElement

/-- The innermost element opened by `tag`. -/
def lookup? (scopes : Scopes) (tag : Bytes) : Option Frame :=
  scopes.find? fun f => f.isElement && f.tag == tag

end Scopes
end DomTemplate
