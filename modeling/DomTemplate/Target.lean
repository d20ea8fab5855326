import DomTemplate.Text.Replace

/-! The output languages. For each, how a string literal is written and how each document
operation reads as one statement. -/

namespace DomTemplate
open Ascii

inductive Target where
  | ruby
  | javascript
  deriving DecidableEq, Repr

/-- A piece of a string: literal text, or code whose value is put there. -/
inductive Fragment where
  | literal (text : Bytes)
  | code (text : Bytes)
  deriving DecidableEq, Repr

namespace Fragment

def text : Fragment → Bytes
  | literal text | code text => text

def isCode : Fragment → Bool
  | code _ => true
  | literal _ => false

end Fragment

namespace Target

def name : Target → Bytes
  | ruby => utf8 "ruby"
  | javascript => utf8 "js"

/-- The language called `name`; Ruby if it is empty. -/
def ofName? (name : Bytes) : Option Target :=
  if name = [] ∨ name = utf8 "ruby" then some ruby
  else if name = utf8 "js" ∨ name = utf8 "javascript" then some javascript
  else none

/-- The reference to a created element. In Ruby it is an instance variable, so that it stays
in reach of the whole view model. -/
def ref (t : Target) (name : Bytes) : Bytes :=
  match t with
  | ruby => utf8 "@" ++ name
  | javascript => name

/-- Breaks up what would close a script element or open a comment in it. -/
def scriptRules : List Rule := [.ofStrings "</" "<\\/", .ofStrings "<!--" "<\\!--"]

def rubyRules : List Rule :=
  [.ofStrings "\\" "\\\\", .ofStrings "\"" "\\\"", .ofStrings "#\x7b" "\\#\x7b",
   .ofStrings "#@" "\\#@", .ofStrings "#$" "\\#$", .ofStrings "\n" "\\n", .ofStrings "\r" "\\r",
   .ofStrings "\t" "\\t"] ++ scriptRules

def javascriptRules : List Rule :=
  [.ofStrings "\\" "\\\\", .ofStrings "\"" "\\\"", .ofStrings "\n" "\\n", .ofStrings "\r" "\\r",
   .ofStrings "\t" "\\t", .ofStrings "\u2028" "\\u2028", .ofStrings "\u2029" "\\u2029"] ++
  scriptRules

/-- Escapes inside a literal between backticks. -/
def templateRules : List Rule :=
  [.ofStrings "\\" "\\\\", .ofStrings "`" "\\`", .ofStrings "$\x7b" "\\$\x7b",
   .ofStrings "\n" "\\n", .ofStrings "\r" "\\r", .ofStrings "\t" "\\t"] ++ scriptRules

def singleQuoteRules : List Rule := [.ofStrings "\\" "\\\\", .ofStrings "'" "\\'"]

/-- A fragment inside a literal: code between `opener` and a brace, text escaped. -/
def fragment (rules : List Rule) (opener : Bytes) : Fragment → Bytes
  | .code text => opener ++ text ++ [rbrace]
  | .literal text => Rule.applyAll rules text

/-- A string literal. JavaScript needs backticks only where there is code. -/
def literal (t : Target) (fragments : List Fragment) : Bytes :=
  match t with
  | ruby => quote :: fragments.flatMap (fragment rubyRules (utf8 "#\x7b")) ++ [quote]
  | javascript =>
    if fragments.any Fragment.isCode then
      backtick :: fragments.flatMap (fragment templateRules (utf8 "$\x7b")) ++ [backtick]
    else quote :: fragments.flatMap (fragment javascriptRules []) ++ [quote]

/-- A literal without code, as tag names have. -/
def static (_ : Target) (s : Bytes) : Bytes :=
  apostrophe :: Rule.applyAll singleQuoteRules s ++ [apostrophe]

/-- What ends a statement. -/
def terminator : Target → Bytes
  | ruby => []
  | javascript => [semicolon]

def createElement (t : Target) (ref tag document : Bytes) : Bytes :=
  let declared := match t with
    | ruby => ref
    | javascript => utf8 "const " ++ ref
  declared ++ utf8 " = " ++ document ++ utf8 ".createElement(" ++ tag ++ utf8 ")" ++ t.terminator

def appendChild (t : Target) (parent child : Bytes) : Bytes :=
  parent ++ utf8 ".appendChild(" ++ child ++ utf8 ")" ++ t.terminator

def appendText (t : Target) (target value document : Bytes) : Bytes :=
  target ++ utf8 ".appendChild(" ++ document ++ utf8 ".createTextNode(" ++ value ++ utf8 "))" ++
    t.terminator

def accumulateText (t : Target) (target value : Bytes) : Bytes :=
  match t with
  | ruby =>
    target ++ utf8 "[:innerText] = " ++ target ++ utf8 "[:innerText].to_s + " ++ value
  | javascript => target ++ utf8 ".textContent += " ++ value ++ utf8 ";"

def setAttribute (t : Target) (target name value : Bytes) : Bytes :=
  target ++ utf8 ".setAttribute(" ++ name ++ utf8 ", " ++ value ++ utf8 ")" ++ t.terminator

def setFlag (t : Target) (target name : Bytes) : Bytes := t.setAttribute target name (utf8 "true")

def addEventListener (t : Target) (target event handler : Bytes) : Bytes :=
  target ++ utf8 ".addEventListener(" ++ event ++ utf8 ", " ++ handler ++ utf8 ")" ++ t.terminator

end Target
end DomTemplate
