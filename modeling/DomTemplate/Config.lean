import DomTemplate.UnknownName

/-! Settings of a build as given by a user, and everything that is wrong with them. -/

namespace DomTemplate
open Ascii

structure Config where
  target : Bytes := utf8 "ruby"
  template : Bytes := utf8 "class"
  rootId : Bytes := utf8 "root"
  rootRef : Bytes := utf8 "root"
  document : Bytes := utf8 "document"
  elementPrefix : Bytes := []
  text : Bytes := utf8 "node"
  delimiters : Bytes := utf8 "brace"
  minify : Bool := false
  viewModel : Bytes := []
  deriving DecidableEq, Repr

/-- A setting that cannot be used. -/
inductive Problem where
  | missing (field : Bytes)
  | notOneOf (field : Bytes) (choices : List Bytes) (given : Bytes)
  | notIdentifier (field given : Bytes)
  | notPrintable (field : Bytes)
  | wrongTarget (template needed : Bytes)
  deriving DecidableEq, Repr

def Problem.message : Problem → Bytes
  | missing field => field ++ utf8 " is required"
  | notOneOf field choices given =>
    field ++ utf8 " must be one of [" ++ Bytes.join [space] choices ++ utf8 "], got " ++
      given.quoted
  | notIdentifier field given => field ++ utf8 " must be an identifier, got " ++ given.quoted
  | notPrintable field => field ++ utf8 " must be printable ASCII"
  | wrongTarget template needed =>
    utf8 "template " ++ template ++ utf8 " requires target " ++ needed

/-- A letter or underscore, then letters, digits and underscores. -/
def isIdentifier : Bytes → Bool
  | [] => false
  | c :: cs =>
    (isLetter c || c == underscore) && cs.all fun b => isAlphanumeric b || b == underscore

def isPrintableAscii (s : Bytes) : Bool := s.all fun b => 0x20 ≤ b && b ≤ 0x7E

namespace Problem

def ofChoice (field : Bytes) (choices : List Bytes) (given : Bytes) : List Problem :=
  if choices.contains given then [] else [.notOneOf field choices given]

/-- An identifier, or nothing. -/
def ofOptional (field given : Bytes) : List Problem :=
  if given.isEmpty || isIdentifier given then [] else [.notIdentifier field given]

def ofRequired (field given : Bytes) : List Problem :=
  if given.isEmpty then [.missing field] else ofOptional field given

def ofPrintable (field given : Bytes) : List Problem :=
  if given.isEmpty then [.missing field]
  else if isPrintableAscii given then [] else [.notPrintable field]

/-- A page kind that runs one language needs it as target. -/
def ofTemplate (template target : Bytes) : List Problem :=
  match (PageKind.all.find? fun k => k.name == template).bind PageKind.language? with
  | some needed => if target = needed.name then [] else [.wrongTarget template needed.name]
  | none => []

end Problem

namespace Config

/-- All problems of a configuration, in the order of its fields. -/
def problems (c : Config) : List Problem :=
  Problem.ofChoice (utf8 "target") [utf8 "ruby", utf8 "js"] c.target ++
  Problem.ofChoice (utf8 "template") (PageKind.all.map PageKind.name) c.template ++
  Problem.ofPrintable (utf8 "root_id") c.rootId ++
  Problem.ofRequired (utf8 "root_ref") c.rootRef ++
  Problem.ofRequired (utf8 "document") c.document ++
  Problem.ofOptional (utf8 "el_prefix") c.elementPrefix ++
  Problem.ofChoice (utf8 "text") [utf8 "node", utf8 "accumulate"] c.text ++
  Problem.ofChoice (utf8 "syntax") [utf8 "brace", utf8 "erb"] c.delimiters ++
  Problem.ofOptional (utf8 "view_model") c.viewModel ++
  Problem.ofTemplate c.template c.target

end Config

/-- Why a configuration is refused. -/
inductive ConfigError where
  | invalid (problems : List Problem)
  | unknown (name : UnknownName)
  deriving DecidableEq, Repr

def ConfigError.message : ConfigError → Bytes
  | invalid problems =>
    utf8 "invalid config: " ++ Bytes.join (utf8 "; ") (problems.map Problem.message)
  | unknown name => name.message

def Config.validate (c : Config) : Except ConfigError Unit :=
  if c.problems.isEmpty then .ok () else .error (.invalid c.problems)

end DomTemplate
