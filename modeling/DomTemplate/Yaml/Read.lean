import DomTemplate.Error
import DomTemplate.Yaml.Node.Parser
import DomTemplate.Yaml.Value

/-! Reading YAML nodes: as texts, as values of any kind, and mappings with others merged into
them. What does not fit is collected, so that it can be reported at once. -/

namespace DomTemplate.Yaml
open Ascii

/-- Why the reading of a document ends early. -/
inductive Stop where
  | refused (error : Error)
  | crashed (crash : Crash)
  deriving DecidableEq, Repr

structure ReadState where
  mismatches : List Mismatch := []
  /-- The number of nodes read, and of those among them that references led to. -/
  nodes : Nat := 0
  referred : Nat := 0
  /-- The numbers of the references that are being followed. -/
  active : List Nat := []
  /-- The keys that the mappings to be merged next may not set. -/
  merged : Option (List Meaning) := none

abbrev Read := StateT ReadState (Except Stop)

namespace Read

def refuse {α : Type} (e : Error) : Read α := fun _ => .error (.refused e)

def crash {α : Type} (c : Crash) : Read α := fun _ => .error (.crashed c)

def report (found : List Mismatch) : Read Unit := modify fun s =>
  { s with mismatches := s.mismatches ++ found }

/-- The share of nodes that may come from references: 99 in a hundred of the first 400 000,
and less and less up to one in ten of 4 000 000. -/
def isExcessive (nodes referred : Nat) : Bool :=
  100 < referred && 1000 < nodes &&
    (if nodes ≤ 400000 then 99 * nodes < 100 * referred
    else if 4000000 ≤ nodes then nodes < 10 * referred
    else nodes * (99 * 3600000 - 89 * (nodes - 400000)) < 100 * 3600000 * referred)

/-- Count a node. -/
def visit : Read Unit := do
  let s ← get
  let nodes := s.nodes + 1
  let referred := if s.active.isEmpty then s.referred else s.referred + 1
  if isExcessive nodes referred then refuse .excessiveReferences
  else set { s with nodes, referred }

/-- Read what the reference of the given number refers to, which may not lead to the reference
again. -/
def follow {α : Type} (number : Nat) (name : Bytes) (read : Read α) : Read α := do
  if (← get).active.contains number then refuse (.selfReference name)
  else
    modify fun s => { s with active := number :: s.active }
    let result ← read
    modify fun s => { s with active := s.active.erase number }
    return result

/-- Read a node, or the one that it refers to. -/
def node {α : Type} (doc : Document) (n : Node) (read : Node → Read α) : Read α := do
  visit
  match n with
  | .reference _ name number anchored =>
    match doc.find? anchored with
    | some target => follow number name (visit *> read target)
    | none => refuse (.unknownAnchor name)
  | n => read n

/-- The meaning of a scalar. -/
def meaning (tag value : Bytes) : Read Meaning := fun s =>
  match scalarMeaning tag value with
  | .ok found => .ok (found, s)
  | .error e => .error (.refused e)

/-- A text as it is shown in a report. -/
def excerpt (text : Bytes) : Bytes :=
  utf8 " `" ++ (if 10 < text.length then text.take 7 ++ utf8 "..." else text) ++ utf8 "`"

/-- A node with the given tag and text cannot be read as `type`. -/
def wrongType (line : Nat) (tag text type : Bytes) : Mismatch :=
  if tag = Tag.sequence || tag = Tag.mapping then .wrongType line tag text type
  else .wrongType line tag (excerpt text) type

/-- The keys in the content of a mapping. -/
def keys : List Node → List Node
  | key :: _ :: rest => key :: keys rest
  | _ => []

/-- The keys that have come before. -/
def repeatedKeys : List Node → List Mismatch
  | [] => []
  | k :: ks =>
    (ks.filter fun n => n.label == k.label).map (fun n => .repeatedKey n.line n.label.2 k.line) ++
      repeatedKeys ks

/-- What is wrong with a mapping that is read as `type`: its keys repeat, or it is none. -/
def mappingMismatches (line : Nat) (tag : Bytes) (content : List Node) (type : Bytes) :
    List Mismatch :=
  match repeatedKeys (keys content) with
  | [] => [wrongType line tag [] type]
  | found => found

/-- Report a collection that is read as `type`. -/
def refuseCollection (n : Node) (type : Bytes) : Read Unit :=
  match n with
  | .sequence line tag _ => report [wrongType line tag [] type]
  | .mapping line tag content => report (mappingMismatches line tag content type)
  | _ => return

/-- A text, absent if the node is null or cannot be read as one. -/
def text (doc : Document) (n : Node) : Read (Option Bytes) :=
  node doc n fun
    | .scalar _ tag value => do
      match ← meaning tag value with
      | .null => return none
      | .text text => return some text
      | _ => return some value
    | n => do
      refuseCollection n (utf8 "string")
      return none

/-- How the entries of a mapping are taken in. -/
structure Intake (σ : Type) where
  /-- At the start of a mapping. -/
  start : σ → σ := id
  key : Node → Read (Option Value)
  /-- Take in an entry: its key, as a node and as read, and the node of its value. -/
  put : σ → Node → Meaning → Node → Read σ

/-- A plain key that merges other mappings into its own. -/
def isMerge : Node → Bool
  | .scalar _ tag value => value == utf8 "<<" && tag == Tag.merge
  | _ => false

/-- The value of the last key that merges. -/
def mergedNode? : List Node → Option Node
  | key :: value :: rest => (mergedNode? rest).or (if isMerge key then some value else none)
  | _ => none

/-- The type of a collection that is a key. -/
def collectionType : Value → Bytes
  | .mapping named _ => Value.mappingType named
  | _ => Value.sequenceType

/-- Take in the entries of a mapping, merged ones aside. `outer` are the keys of the mapping
that this one is merged into; what it adds is added to them. -/
def entries {σ : Type} (intake : Intake σ) (outer : Option (List Meaning)) (s : σ) :
    List Node → Read (σ × Option (List Meaning))
  | k :: v :: rest => do
    if isMerge k then entries intake outer s rest
    else
      match ← intake.key k with
      | none => entries intake outer s rest
      | some (.scalar key) =>
        if outer.any fun keys => keys.any key.isSameKey then entries intake outer s rest
        else entries intake (outer.map (key :: ·)) (← intake.put s k key v) rest
      | some key =>
        if outer.isSome then crash (.unhashableKey (collectionType key))
        else refuse (.invalidKey key.render)
  | _ => return (s, outer)

/-- Keep the keys of a mapping from the mappings that are merged into it. A key that is a
mapping itself keeps its own keys from them, too. -/
def holdKeys (read : Node → Read (Option Value)) : List Node → Read Unit
  | [] => return
  | k :: ks => do
    match ← read k with
    | none => holdKeys read ks
    | some (.scalar key) =>
      modify fun s => { s with merged := s.merged.map (key :: ·) }
      holdKeys read ks
    | some key => crash (.unhashableKey (collectionType key))

mutual

/-- Take in a mapping, then those merged into it as far as it does not set their keys itself.
Nothing comes of one whose keys repeat. `read` reads any node, and `depth` bounds the
recursion. -/
def mapping {σ : Type} (doc : Document) (read : Node → Read (Option Value)) (intake : Intake σ) :
    (depth : Nat) → σ → (content : List Node) → Read (Option σ)
  | 0, _, _ => refuse (.selfReference [])
  | depth + 1, s, content => do
    match repeatedKeys (keys content) with
    | [] =>
      let outer := (← get).merged
      modify fun r => { r with merged := none }
      let (s, outer) ← entries intake outer (intake.start s) content
      modify fun r => { r with merged := outer }
      match mergedNode? content with
      | none => return some s
      | some n =>
        if outer.isSome then return some (← merge doc read intake depth s n)
        else
          modify fun r => { r with merged := some [] }
          holdKeys read (keys content)
          let s ← merge doc read intake depth s n
          modify fun r => { r with merged := none }
          return some s
    | found =>
      report found
      return none

/-- Take in merged mappings: one, or several in a sequence. -/
def merge {σ : Type} (doc : Document) (read : Node → Read (Option Value)) (intake : Intake σ) :
    (depth : Nat) → σ → Node → Read σ
  | 0, _, _ => refuse (.selfReference [])
  | depth + 1, s, n =>
    match n with
    | .sequence _ _ items => mergeEach doc read intake depth s items
    | n => mergeOne doc read intake depth s n

def mergeEach {σ : Type} (doc : Document) (read : Node → Read (Option Value))
    (intake : Intake σ) : (depth : Nat) → σ → List Node → Read σ
  | 0, _, _ => refuse (.selfReference [])
  | _ + 1, s, [] => return s
  | depth + 1, s, n :: ns => do
    mergeEach doc read intake depth (← mergeOne doc read intake depth s n) ns

def mergeOne {σ : Type} (doc : Document) (read : Node → Read (Option Value))
    (intake : Intake σ) : (depth : Nat) → σ → Node → Read σ
  | 0, _, _ => refuse (.selfReference [])
  | depth + 1, s, n =>
    match n with
    | .mapping _ _ content => do
      visit
      return (← mapping doc read intake depth s content).getD s
    | .reference _ name number anchored =>
      match doc.find? anchored with
      | some (.mapping _ _ content) => do
        visit
        follow number name do
          visit
          return (← mapping doc read intake depth s content).getD s
      | _ => refuse .mergeOfNonMapping
    | _ => refuse .mergeOfNonMapping

end

/-- The tag of a node, or of the one that it refers to. -/
def tagOf (doc : Document) : Node → Bytes
  | .scalar _ tag _ | .sequence _ tag _ | .mapping _ tag _ => tag
  | .reference _ _ _ anchored =>
    match doc.find? anchored with
    | some (.scalar _ tag _) | some (.sequence _ tag _) | some (.mapping _ tag _) => tag
    | _ => []

/-- All keys of a mapping are texts. -/
def isNamed (doc : Document) (content : List Node) : Bool :=
  (keys content).all fun k => [Tag.string, Tag.merge].contains (tagOf doc k)

/-- Read items, without those that nothing comes of. -/
def items (read : Node → Read (Option Value)) : List Node → Read (List Value)
  | [] => return []
  | n :: ns => do
    let first ← read n
    return first.toList ++ (← items read ns)

/-- Read a node of any kind. -/
def value (doc : Document) : (depth : Nat) → Node → Read (Option Value)
  | 0, _ => refuse (.selfReference [])
  | depth + 1, n =>
    node doc n fun
      | .scalar _ tag text => do return some (.scalar (← meaning tag text))
      | .sequence _ _ content => do return some (.sequence (← items (value doc depth) content))
      | .mapping _ _ content => do
        let named := isNamed doc content
        let key (k : Node) : Read (Option Value) := do
          if named then return (← text doc k).map fun name => .scalar (.text name)
          else value doc depth k
        let put (found : List (Meaning × Value)) (_ : Node) (key : Meaning) (v : Node) :
            Read (List (Meaning × Value)) := do
          match ← value doc depth v with
          | some v => return Value.insert key v found
          | none => return found
        let found ← mapping doc (value doc depth) { key, put } depth [] content
        return found.map (.mapping named)
      | .reference .. => return none

/-- A bound on the depth of reading: every reference leads through the document once at most. -/
def depthOf (doc : Document) : Nat := 4 * (doc.root.size + 1) * (doc.root.size + 1)

end Read
end DomTemplate.Yaml
