import DomTemplate.Config
import DomTemplate.Yaml.Read

/-! Reading settings from YAML. A document is a mapping of settings by name, and what it
leaves out keeps its default. -/

namespace DomTemplate
open Yaml (Read)

/-- How a setting is read. -/
inductive ConfigField where
  | text (set : Bytes → Config → Config)
  | switch (set : Bool → Config → Config)

namespace ConfigField

def all : List (Bytes × ConfigField) :=
  [(utf8 "target", .text fun v c => { c with target := v }),
   (utf8 "template", .text fun v c => { c with template := v }),
   (utf8 "root_id", .text fun v c => { c with rootId := v }),
   (utf8 "root_ref", .text fun v c => { c with rootRef := v }),
   (utf8 "document", .text fun v c => { c with document := v }),
   (utf8 "el_prefix", .text fun v c => { c with elementPrefix := v }),
   (utf8 "text", .text fun v c => { c with text := v }),
   (utf8 "syntax", .text fun v c => { c with delimiters := v }),
   (utf8 "minify", .switch fun v c => { c with minify := v }),
   (utf8 "view_model", .text fun v c => { c with viewModel := v })]

def find? (name : Bytes) : Option ConfigField :=
  (all.find? fun entry => entry.1 == name).map Prod.snd

end ConfigField

/-- The settings read so far. -/
structure ConfigReading where
  config : Config := {}
  /-- The names that the mapping being read has set. -/
  own : List Bytes := []

namespace ConfigReading

def settingsType : Bytes := utf8 "config.Config"

/-- Words for truth values. -/
def truthOf? (s : Bytes) : Option Bool :=
  if [utf8 "y", utf8 "Y", utf8 "yes", utf8 "on"].contains s then some true
  else if [utf8 "n", utf8 "N", utf8 "no", utf8 "off"].contains s then some false
  else none

/-- The truth value that a scalar of a meaning stands for. -/
def truthOfMeaning? : Yaml.Meaning → Option Bool
  | .boolean b => some b
  | .text text => truthOf? text
  | _ => none

/-- A truth value, absent if the node is null or cannot be read as one. -/
def readTruth (doc : Yaml.Document) (n : Yaml.Node) : Read (Option Bool) :=
  Read.node doc n fun
    | .scalar line tag value => do
      match ← Read.meaning tag value with
      | .null => return none
      | meaning =>
        if (truthOfMeaning? meaning).isNone then
          Read.report [Read.wrongType line tag value (utf8 "bool")]
        return truthOfMeaning? meaning
    | n => do
      Read.refuseCollection n (utf8 "bool")
      return none

/-- The settings with one of them read from a node. -/
def readField (doc : Yaml.Document) (c : Config) (field : ConfigField) (n : Yaml.Node) :
    Read Config := do
  match field with
  | .text set => return ((← Read.text doc n).map fun v => set v c).getD c
  | .switch set => return ((← readTruth doc n).map fun v => set v c).getD c

/-- Read the setting `name`, unless the mapping has set it before. -/
def readNamed (doc : Yaml.Document) (r : ConfigReading) (line : Nat) (name : Bytes)
    (value : Yaml.Node) : Read ConfigReading := do
  match ConfigField.find? name with
  | none =>
    Read.report [.unknownField line name settingsType]
    return r
  | some field =>
    if r.own.contains name then
      Read.report [.repeatedField line name settingsType]
      return r
    else return ⟨← readField doc r.config field value, name :: r.own⟩

/-- How settings are taken in from a mapping. -/
def intake (doc : Yaml.Document) : Read.Intake ConfigReading where
  start r := { r with own := [] }
  key n := return (← Read.text doc n).map fun name => .scalar (.text name)
  put r key found value :=
    match found with
    | .text name => readNamed doc r key.line name value
    | _ => return r

/-- Read the settings of a document. -/
def readDocument (doc : Yaml.Document) : Read Config := do
  let depth := Read.depthOf doc
  Read.visit
  Read.node doc doc.root fun
    | .mapping _ _ content => do
      let r ← Read.mapping doc (Read.value doc depth) (intake doc) depth {} content
      return (r.getD {}).config
    | .scalar line tag value => do
      match ← Read.meaning tag value with
      | .null => return {}
      | _ =>
        Read.report [Read.wrongType line tag value settingsType]
        return {}
    | n => do
      Read.refuseCollection n settingsType
      return {}

end ConfigReading

/-- The settings in a YAML text. -/
def Config.ofYaml (text : Bytes) : Except Yaml.Stop Config := do
  match Yaml.Document.parse? text with
  | .error e => throw (.refused e)
  | .ok none => return {}
  | .ok (some doc) =>
    let (config, reading) ← (ConfigReading.readDocument doc).run {}
    if reading.mismatches.isEmpty then return config
    else throw (.refused (.mismatches reading.mismatches))

end DomTemplate
