import DomTemplate.Page

/-! Pages without the white space between their tags and with attributes in their shortest
quoted form. The text of scripts stays as it is. -/

namespace DomTemplate
open Ascii

/-- The longest body of a character reference, from after its ampersand to its semicolon. -/
def longestReference : Nat := 32

/-- What would complete a character reference follows: an optional `#`, then letters and
digits up to a semicolon. -/
def endsReference (s : Bytes) : Bool :=
  let body := s.take longestReference
  let name := if body.head? = some sharp then body.drop 1 else body
  (name.dropWhile isAlphanumeric).head? = some semicolon

/-- The value of an attribute as it may stand between quotes: an ampersand is escaped only
where it would otherwise start a reference. -/
def ampersands : Bytes → Bytes
  | [] => []
  | c :: cs =>
    if c = amp ∧ endsReference cs then utf8 "&amp;" ++ ampersands cs else c :: ampersands cs

/-- An attribute value in the quotes that need fewer escapes, double quotes if in doubt. -/
def quoteAttribute (value : Bytes) : Bytes :=
  if value.count quote ≤ value.count apostrophe then
    quote :: Rule.applyAll [.ofStrings "\"" "&#34;"] value ++ [quote]
  else apostrophe :: Rule.applyAll [.ofStrings "'" "&#39;"] value ++ [apostrophe]

def PageItem.renderMinified : PageItem → Bytes
  | markup text | script text => text
  | gap _ => []
  | mount id => utf8 "<div id=" ++ quoteAttribute (ampersands id) ++ utf8 ">"

def Page.renderMinified : Page → Bytes
  | code text => text
  | html items => items.flatMap PageItem.renderMinified

end DomTemplate
