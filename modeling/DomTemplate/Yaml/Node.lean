import DomTemplate.Yaml.Token
import DomTemplate.Text.Quoted

/-! YAML documents as trees, and all that can be wrong with one. A reference names an
anchored node by number, since a node may refer to one that it is part of. -/

namespace DomTemplate.Yaml

inductive Node where
  /-- A scalar; its tag is resolved. -/
  | scalar (line : Nat) (tag value : Bytes)
  | sequence (line : Nat) (tag : Bytes) (items : List Node)
  /-- Keys and values in turn. -/
  | mapping (line : Nat) (tag : Bytes) (content : List Node)
  /-- A reference, which has a number of its own, to the anchored node of a number. -/
  | reference (line : Nat) (name : Bytes) (number anchored : Nat)
  deriving Repr

namespace Node

def line : Node → Nat
  | scalar line .. | sequence line .. | mapping line .. | reference line .. => line

/-- What tells keys apart: the sort of node, and its text. -/
def label : Node → Nat × Bytes
  | scalar _ _ value => (0, value)
  | sequence .. => (1, [])
  | mapping .. => (2, [])
  | reference _ name _ _ => (3, name)

mutual

/-- The number of nodes in a tree. -/
def size : Node → Nat
  | scalar .. | reference .. => 1
  | sequence _ _ items => 1 + sizeOfAll items
  | mapping _ _ content => 1 + sizeOfAll content

def sizeOfAll : List Node → Nat
  | [] => 0
  | n :: ns => size n + sizeOfAll ns

end

end Node

structure Document where
  root : Node
  /-- The anchored nodes by number. -/
  anchored : List (Nat × Node)

def Document.find? (d : Document) (n : Nat) : Option Node :=
  (d.anchored.find? fun entry => entry.1 == n).map Prod.snd

/-- A part of a document that does not fit what is read from it. -/
inductive Mismatch where
  | repeatedKey (line : Nat) (key : Bytes) (firstLine : Nat)
  | unknownField (line : Nat) (name type : Bytes)
  | repeatedField (line : Nat) (name type : Bytes)
  /-- A node of the given tag and text cannot be read as a `type`. -/
  | wrongType (line : Nat) (tag text type : Bytes)
  deriving DecidableEq, Repr

namespace Mismatch

def atLine (n : Nat) : Bytes := utf8 "line " ++ Bytes.decimal n ++ utf8 ": "

def message : Mismatch → Bytes
  | repeatedKey line key firstLine =>
    atLine line ++ utf8 "mapping key " ++ key.quoted ++ utf8 " already defined at line " ++
      Bytes.decimal firstLine
  | unknownField line name type =>
    atLine line ++ utf8 "field " ++ name ++ utf8 " not found in type " ++ type
  | repeatedField line name type =>
    atLine line ++ utf8 "field " ++ name ++ utf8 " already set in type " ++ type
  | wrongType line tag text type =>
    atLine line ++ utf8 "cannot unmarshal " ++ tag ++ text ++ utf8 " into " ++ type

end Mismatch

inductive Error where
  | unreadable (error : TextError)
  | unknownAnchor (name : Bytes)
  | selfReference (name : Bytes)
  /-- A text that is a `found`, under the tag of a `wanted`. -/
  | wrongTag (found text wanted : Bytes)
  | badBase64
  | mergeOfNonMapping
  /-- A key that is a collection; `text` shows it. -/
  | invalidKey (text : Bytes)
  /-- Nearly all of the document comes from references. -/
  | excessiveReferences
  | mismatches (list : List Mismatch)
  deriving DecidableEq, Repr

def TextError.message : TextError → Bytes
  | source fault => utf8 "yaml: " ++ fault.render
  | form ⟨line, fault⟩ =>
    utf8 "yaml: " ++ (if line = 0 then [] else Mismatch.atLine line) ++ fault.render

def Error.message : Error → Bytes
  | unreadable error => error.message
  | unknownAnchor name => utf8 "yaml: unknown anchor '" ++ name ++ utf8 "' referenced"
  | selfReference name => utf8 "yaml: anchor '" ++ name ++ utf8 "' value contains itself"
  | wrongTag found text wanted =>
    utf8 "yaml: cannot decode " ++ found ++ utf8 " `" ++ text ++ utf8 "` as a " ++ wanted
  | badBase64 => utf8 "yaml: !!binary value contains invalid base64 data"
  | mergeOfNonMapping => utf8 "yaml: map merge requires map or sequence of maps as the value"
  | invalidKey text => utf8 "yaml: invalid map key: " ++ text
  | excessiveReferences => utf8 "yaml: document contains excessive aliasing"
  | mismatches list =>
    utf8 "yaml: unmarshal errors:\n  " ++ Bytes.join (utf8 "\n  ") (list.map Mismatch.message)

end DomTemplate.Yaml
