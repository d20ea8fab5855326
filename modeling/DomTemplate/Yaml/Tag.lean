import DomTemplate.Text.Base64
import DomTemplate.Yaml.Node
import DomTemplate.Yaml.Number
import DomTemplate.Yaml.Timestamp

/-! Tags, and what a scalar means under one. -/

namespace DomTemplate.Yaml
open Ascii

namespace Tag

def string : Bytes := utf8 "!!str"
def boolean : Bytes := utf8 "!!bool"
def integer : Bytes := utf8 "!!int"
def float : Bytes := utf8 "!!float"
def null : Bytes := utf8 "!!null"
def timestamp : Bytes := utf8 "!!timestamp"
def binary : Bytes := utf8 "!!binary"
def merge : Bytes := utf8 "!!merge"
def sequence : Bytes := utf8 "!!seq"
def mapping : Bytes := utf8 "!!map"

/-- What the handle of the standard tags stands for. -/
def standard : Bytes := utf8 "tag:yaml.org,2002:"

/-- A tag with the standard handle in place of what it stands for. -/
def short (tag : Bytes) : Bytes :=
  match Bytes.dropPrefix? standard tag with
  | some rest => utf8 "!!" ++ rest
  | none => tag

/-- The text decides what a scalar under this tag means. -/
def isResolvable (tag : Bytes) : Bool :=
  tag.isEmpty || [string, boolean, integer, float, null, timestamp].contains tag

end Tag

/-- The meaning of a scalar. -/
inductive Meaning where
  | null
  | boolean (value : Bool)
  | integer (value : Int)
  | float (value : Binary64)
  | timestamp (value : Timestamp)
  | text (value : Bytes)
  deriving DecidableEq, Repr

/-- The tag that scalars of a meaning have by themselves. -/
def Meaning.tag : Meaning → Bytes
  | null => Tag.null
  | boolean _ => Tag.boolean
  | integer _ => Tag.integer
  | float _ => Tag.float
  | timestamp _ => Tag.timestamp
  | text _ => Tag.string

/-- Texts with a meaning of their own. -/
def fixedMeanings : List (List Bytes × Meaning) :=
  [([utf8 "true", utf8 "True", utf8 "TRUE"], .boolean true),
   ([utf8 "false", utf8 "False", utf8 "FALSE"], .boolean false),
   ([[], utf8 "~", utf8 "null", utf8 "Null", utf8 "NULL"], .null),
   ([utf8 ".nan", utf8 ".NaN", utf8 ".NAN"], .float .notNumber),
   ([utf8 ".inf", utf8 ".Inf", utf8 ".INF", utf8 "+.inf", utf8 "+.Inf", utf8 "+.INF"],
    .float (.infinite false)),
   ([utf8 "-.inf", utf8 "-.Inf", utf8 "-.INF"], .float (.infinite true))]

/-- The meaning of a text that starts with a sign or a digit. -/
def numericMeaning? (tag s : Bytes) : Option Meaning :=
  let bare := s.filter (· != underscore)
  let time := if tag.isEmpty || tag = Tag.timestamp then Timestamp.ofText? s else none
  (time.map .timestamp).or <|
    ((Number.plainInteger? bare).map .integer).or <|
    ((Number.decimalValue? bare).map .float).or <|
    (Number.markedInteger? bare).map .integer

/-- The meaning of a text, looked at under the resolvable tag `tag`. -/
def textMeaning (tag s : Bytes) : Meaning :=
  if tag = Tag.string then .text s
  else match fixedMeanings.find? fun entry => entry.1.contains s with
    | some (_, meaning) => meaning
    | none =>
      match s with
      | [] => .text s
      | c :: _ =>
        if isDigit c || c = plus || c = dash then (numericMeaning? tag s).getD (.text s)
        else if c = dot then ((Number.fraction? s).map .float).getD (.text s)
        else .text s

/-- The tag that a plain scalar without one gets. -/
def implicitTag (s : Bytes) : Bytes := (textMeaning [] s).tag

/-- What a scalar means under its tag. An integer that needs all 64 bits is not taken for a
floating-point number. -/
def scalarMeaning (tag s : Bytes) : Except Error Meaning :=
  if tag = Tag.binary then
    match Base64.decode? s with
    | some data => .ok (.text data)
    | none => .error .badBase64
  else if !Tag.isResolvable tag then .ok (.text s)
  else
    let meaning := textMeaning tag s
    if tag.isEmpty || meaning.tag = tag || tag = Tag.string then .ok meaning
    else match meaning with
      | .integer n =>
        if tag = Tag.float && n < Bytes.signedLimit then .ok (.float (.nearest (n < 0) n.natAbs 1))
        else .error (.wrongTag meaning.tag s tag)
      | _ => .error (.wrongTag meaning.tag s tag)

end DomTemplate.Yaml
