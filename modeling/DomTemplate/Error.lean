import DomTemplate.Template.Node
import DomTemplate.Text.Quoted

/-! Why a template is refused. An error is a cause, with the place it is about where it
has one; its wording is in `message`. Constructors called `other` carry the wording of a
caller that reports a cause of its own. -/

namespace DomTemplate

/-- A construct that stands for no document operation. -/
inductive UnknownNode where
  | doctype
  | tagWithoutName
  | attributeWithoutName
  | absent
  | misplaced (kind : NodeKind)
  | misplacedInText (kind : NodeKind)
  | other (description : Bytes)
  deriving DecidableEq, Repr

def UnknownNode.render : UnknownNode → Bytes
  | doctype => utf8 "doctype"
  | tagWithoutName => utf8 "tag without name"
  | attributeWithoutName => utf8 "attribute without name"
  | absent => utf8 "<nil>"
  | misplaced kind => kind.render
  | misplacedInText kind => kind.render ++ utf8 " in text"
  | other description => description

/-- How tags fail to match. -/
inductive TagFault where
  | stray
  | mismatch
  | unclosed
  | void
  deriving DecidableEq, Repr

inductive AttributeFault where
  | statementInName
  | statementInValue
  | missingEventName
  | missingHandler
  | compoundHandler
  | other (wording : Bytes)
  deriving DecidableEq, Repr

def AttributeFault.render : AttributeFault → Bytes
  | statementInName => utf8 "statement in attribute name"
  | statementInValue => utf8 "statement in attribute value"
  | missingEventName => utf8 "missing event name"
  | missingHandler => utf8 "event handler requires a value"
  | compoundHandler => utf8 "event handler must be a single code block or literal"
  | other wording => wording

/-- What makes a source text unreadable. -/
inductive SourceFault where
  | reservedCharacter
  | unterminatedBlock
  | emptyBlock
  | unfinishedTag
  | statementInTagName
  | other (wording : Bytes)
  deriving DecidableEq, Repr

def SourceFault.render : SourceFault → Bytes
  | reservedCharacter => utf8 "reserved private-use character in template"
  | unterminatedBlock => utf8 "unterminated code block"
  | emptyBlock => utf8 "empty code block"
  | unfinishedTag => utf8 "unexpected end of input inside tag"
  | statementInTagName => utf8 "statement in tag name"
  | other wording => wording

/-- The use of an empty scope stack. -/
inductive ScopeUse where
  | current
  | pop
  | other (name : Bytes)
  deriving DecidableEq, Repr

def ScopeUse.render : ScopeUse → Bytes
  | current => utf8 "current"
  | pop => utf8 "pop"
  | other name => name

inductive TemplateError where
  | unrecognizedNode (pos : Pos) (node : UnknownNode)
  /-- `opened` is the innermost open element, empty if there is none. -/
  | unbalancedTag (pos : Pos) (tag opened : Bytes) (fault : TagFault)
  | emptyScope (use : ScopeUse)
  | invalidAttribute (pos : Pos) (name : Bytes) (fault : AttributeFault)
  | unreadable (pos : Pos) (fault : SourceFault)
  /-- A text that holds the mark of a code block, but not of one of its template. -/
  | malformedMark (text : Bytes)
  /-- The scopes are not as deep as before the tags in them. -/
  | unevenScope (depth expected : Nat)
  deriving DecidableEq, Repr

namespace TemplateError

def message : TemplateError → Bytes
  | unrecognizedNode pos node => pos.render ++ utf8 ": unrecognized node " ++ node.render
  | unbalancedTag pos tag _ .unclosed => pos.render ++ utf8 ": unclosed tag <" ++ tag ++ utf8 ">"
  | unbalancedTag pos tag opened .mismatch =>
    pos.render ++ utf8 ": closing tag </" ++ tag ++ utf8 "> does not match open <" ++ opened ++
      utf8 ">"
  | unbalancedTag pos tag _ .void =>
    pos.render ++ utf8 ": closing tag </" ++ tag ++ utf8 "> for self-closing element"
  | unbalancedTag pos tag _ .stray =>
    pos.render ++ utf8 ": stray closing tag </" ++ tag ++ utf8 ">"
  | emptyScope use => utf8 "scope stack is empty (" ++ use.render ++ utf8 ")"
  | invalidAttribute pos name fault =>
    pos.render ++ utf8 ": invalid attribute " ++ name.quoted ++ utf8 ": " ++ fault.render
  | unreadable pos fault => pos.render ++ utf8 ": syntax error: " ++ fault.render
  | malformedMark text => utf8 "parse: malformed code sentinel in " ++ text.quoted
  | unevenScope depth expected =>
    utf8 "compile: scope depth " ++ Bytes.decimal depth ++ utf8 ", want " ++ Bytes.decimal expected

/-- The place that an error is about. -/
def position? : TemplateError → Option Pos
  | unrecognizedNode pos _ | unbalancedTag pos _ _ _ | invalidAttribute pos _ _
  | unreadable pos _ =>
    if pos.isPlace then some pos else none
  | _ => none

end TemplateError

/-- A step that has no result at all, not even a refusal. -/
inductive Crash where
  | indexOutOfRange (index : Int)
  /-- An entry of the given description stands where text is built. -/
  | notText (entry : Bytes)
  /-- A collection of the given type stands where a key is looked up. -/
  | unhashableKey (type : Bytes)
  deriving DecidableEq, Repr

def Crash.message : Crash → Bytes
  | indexOutOfRange index =>
    utf8 "runtime error: index out of range [" ++ Bytes.decimalInt index ++ utf8 "]"
  | notText entry => utf8 "export: " ++ entry ++ utf8 " in string context"
  | unhashableKey type => utf8 "runtime error: hash of unhashable type " ++ type

/-- Why there is no result. -/
inductive Failure where
  | refused (error : TemplateError)
  | crashed (crash : Crash)
  deriving DecidableEq, Repr

end DomTemplate
