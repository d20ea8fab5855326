import DomTemplate.Yaml.Tag

/-! Values of YAML nodes that are read without knowing what to expect. Keys are scalars; a
mapping keeps its entries in the order of its keys. -/

namespace DomTemplate.Yaml
open Ascii

namespace Meaning

/-- Two scalars are the same key: zeros are, whatever their sign, and what is no number is not
even the same as itself. -/
def isSameKey : Meaning → Meaning → Bool
  | float .notNumber, _ => false
  | float (.finite _ 0 _), float (.finite _ 0 _) => true
  | timestamp s, timestamp t => s.isSame t
  | a, b => a == b

/-- Sorts of keys, in their order; integers that need all 64 bits are a sort of their own. -/
def keySort : Meaning → Nat
  | null => 0
  | boolean _ => 1
  | float _ => 2
  | integer n => if n < Bytes.signedLimit then 3 else 5
  | text _ => 4
  | timestamp _ => 6

/-- A floating-point number as a multiple of the least one. Infinity is beyond every finite
number, and what is no number comes first of all. -/
def multiple : Binary64 → Int
  | .finite negative m e =>
    let n := m <<< (e - Binary64.leastExponent).toNat
    if negative then -n else n
  | .infinite negative => if negative then -(1 <<< 2200 : Nat) else (1 <<< 2200 : Nat)
  | .notNumber => -(1 <<< 2201 : Nat)

/-- A list that tells the order of timestamps. -/
def timeKey (t : Timestamp) : List Nat :=
  [t.time.nanosecond, t.year, t.month, t.day, t.time.hour, t.time.minute, t.time.second]

/-- One key comes before another, or stands at the same place. -/
def precedes (a b : Meaning) : Bool :=
  if a.keySort ≠ b.keySort then a.keySort < b.keySort
  else match a, b with
    | integer m, integer n => m ≤ n
    | float x, float y => multiple x ≤ multiple y
    | boolean x, boolean y => !x || y
    | text s, text t => Bytes.le s t
    | timestamp s, timestamp t => !(timeKey t).lex (timeKey s) (· < ·)
    | _, _ => true

/-- The text of a scalar in a report. -/
def render : Meaning → Bytes
  | null => utf8 "interface \x7b\x7d(nil)"
  | boolean value => utf8 (if value then "true" else "false")
  | integer n =>
    if n < Bytes.signedLimit then Bytes.decimalInt n
    else utf8 "0x" ++ utf8 (String.ofList (Nat.toDigits 16 n.toNat))
  | float x => x.render
  | timestamp t => t.render
  | text s => s.quoted

end Meaning

inductive Value where
  | scalar (meaning : Meaning)
  | sequence (items : List Value)
  /-- A mapping, which is named if all of its keys were texts when it was made. -/
  | mapping (named : Bool) (entries : List (Meaning × Value))
  deriving Repr

namespace Value

/-- Put an entry in front of those that its key precedes. -/
def insertSorted (key : Meaning) (value : Value) :
    List (Meaning × Value) → List (Meaning × Value)
  | [] => [(key, value)]
  | (k, v) :: entries =>
    if key.precedes k then (key, value) :: (k, v) :: entries
    else (k, v) :: insertSorted key value entries

/-- The entries with a further one, which takes the place of one of the same key. -/
def insert (key : Meaning) (value : Value) (entries : List (Meaning × Value)) :
    List (Meaning × Value) :=
  insertSorted key value (entries.filter fun entry => !key.isSameKey entry.1)

/-- The name of the type of a mapping. -/
def mappingType (named : Bool) : Bytes :=
  if named then utf8 "map[string]interface \x7b\x7d"
  else utf8 "map[interface \x7b\x7d]interface \x7b\x7d"

def sequenceType : Bytes := utf8 "[]interface \x7b\x7d"

mutual

/-- The text of a value in a report. -/
def render : Value → Bytes
  | scalar meaning => meaning.render
  | sequence items => sequenceType ++ utf8 "\x7b" ++ renderItems items ++ utf8 "\x7d"
  | mapping named entries =>
    mappingType named ++ utf8 "\x7b" ++ renderEntries entries ++ utf8 "\x7d"

def renderItems : List Value → Bytes
  | [] => []
  | [v] => render v
  | v :: vs => render v ++ utf8 ", " ++ renderItems vs

def renderEntries : List (Meaning × Value) → Bytes
  | [] => []
  | [(k, v)] => k.render ++ utf8 ":" ++ render v
  | (k, v) :: entries => k.render ++ utf8 ":" ++ render v ++ utf8 ", " ++ renderEntries entries

end

end Value
end DomTemplate.Yaml
