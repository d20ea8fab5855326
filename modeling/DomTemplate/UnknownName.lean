import DomTemplate.DomOp
import DomTemplate.Page
import DomTemplate.Template.CodeSpan
import DomTemplate.Text.Quoted

/-! Settings given by name, and the refusal of names that mean nothing. -/

namespace DomTemplate

/-- What a build writes. -/
inductive Emit where
  /-- Code in its wrapper. -/
  | code
  /-- The dump of the intents. -/
  | intents
  deriving DecidableEq, Repr

namespace Emit

def name : Emit → Bytes
  | code => utf8 "code"
  | intents => utf8 "ir"

/-- What `name` asks for; code if it is empty. -/
def ofName? (name : Bytes) : Option Emit :=
  if name = [] ∨ name = utf8 "code" then some code
  else if name = utf8 "ir" then some intents
  else none

end Emit

/-- The kind of thing that a name fails to name. -/
inductive Setting where
  | delimiters
  | target
  | textMode
  | pageKind
  | emit
  deriving DecidableEq, Repr

def Setting.describe : Setting → Bytes
  | delimiters => utf8 "template syntax"
  | target => utf8 "target"
  | textMode => utf8 "text mode"
  | pageKind => utf8 "template kind"
  | emit => utf8 "emit mode"

structure UnknownName where
  setting : Setting
  name : Bytes
  deriving DecidableEq, Repr

def UnknownName.message (e : UnknownName) : Bytes :=
  utf8 "unknown " ++ e.setting.describe ++ utf8 " " ++ e.name.quoted

/-- The value that `name` stands for, or why it stands for none. -/
def named {α : Type} (setting : Setting) (ofName? : Bytes → Option α) (name : Bytes) :
    Except UnknownName α :=
  match ofName? name with
  | some a => .ok a
  | none => .error ⟨setting, name⟩

def Delimiters.named : Bytes → Except UnknownName Delimiters :=
  DomTemplate.named .delimiters ofName?

def Target.named : Bytes → Except UnknownName Target := DomTemplate.named .target ofName?

def TextMode.named : Bytes → Except UnknownName TextMode := DomTemplate.named .textMode ofName?

def PageKind.named : Bytes → Except UnknownName PageKind := DomTemplate.named .pageKind ofName?

def Emit.named : Bytes → Except UnknownName Emit := DomTemplate.named .emit ofName?

end DomTemplate
