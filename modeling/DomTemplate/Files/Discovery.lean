import DomTemplate.Files.Host
import DomTemplate.Path
import DomTemplate.Text.Blank

/-! Finding templates by patterns. A pattern that ends in dots means the tree below it, a
directory its own templates, and any other pattern one template file. -/

namespace DomTemplate
open Ascii

def templateExtension : Bytes := utf8 ".erb"

/-- A name of a template: it ends in the extension, and is more than that. -/
def isTemplate (name : Bytes) : Bool :=
  name.endsWith templateExtension && templateExtension.length < name.length

/-- Directories that are not searched. -/
def isSkipped (name : Bytes) : Bool :=
  name == utf8 "vendor" || name == utf8 "node_modules" || name.head? == some dot

/-- `s` put into a strictly increasing list. -/
def insertSorted (s : Bytes) : List Bytes → List Bytes
  | [] => [s]
  | t :: ts => if s = t then t :: ts else if s.le t then s :: t :: ts else t :: insertSorted s ts

/-- The members of a list in increasing order, each once. -/
def sortedSet (paths : List Bytes) : List Bytes := paths.foldr insertSorted []

inductive DiscoveryError where
  | file (error : FileError)
  | notTemplate (path : Bytes)
  deriving DecidableEq, Repr

def DiscoveryError.message : DiscoveryError → Bytes
  | file error => error.message
  | notTemplate path => utf8 "not a " ++ templateExtension ++ utf8 " template: " ++ path

/-- What a pattern stands for. -/
inductive Pattern where
  /-- Every template at or below a place. -/
  | tree (path : Bytes)
  /-- The templates directly in a directory, or one template. -/
  | place (path : Bytes)
  deriving DecidableEq, Repr

namespace Pattern

def dots : Bytes := utf8 "..."

/-- The absolute path of `path` as seen from `dir`. -/
def resolve (dir path : Bytes) : Bytes :=
  if Path.isAbsolute path then Path.clean path else Path.join [dir, path]

/-- What a trimmed pattern stands for in the directory `dir`. -/
def ofText (dir text : Bytes) : Pattern :=
  if text = dots || text.endsWith (slash :: dots) then
    let base := Bytes.trimSuffix [slash] (Bytes.trimSuffix dots text)
    .tree (resolve dir (if base.isEmpty then Path.here else base))
  else .place (resolve dir text)

variable {m : Type → Type} [Monad m] [Host m]

/-- The templates that a pattern stands for, in any order. -/
def templates : Pattern → m (Except DiscoveryError (List Bytes))
  | tree path => do
    match ← Host.filesBelow isSkipped path with
    | .ok paths => return .ok (paths.filter fun p => isTemplate (Path.base p))
    | .error e => return .error (.file e)
  | place path => do
    match ← Host.isDirectory path with
    | .error e => return .error (.file e)
    | .ok false => return if isTemplate path then .ok [path] else .error (.notTemplate path)
    | .ok true =>
      match ← Host.list path with
      | .ok names => return .ok ((names.filter isTemplate).map fun name => Path.join [path, name])
      | .error e => return .error (.file e)

/-- The templates of all patterns, as far as there is no error. -/
def templatesOf : List Pattern → m (Except DiscoveryError (List Bytes))
  | [] => return .ok []
  | p :: ps => do
    match ← p.templates with
    | .error e => return .error e
    | .ok paths => return (← templatesOf ps).map (paths ++ ·)

end Pattern

variable {m : Type → Type} [Monad m] [Host m]

/-- The absolute paths of the templates that `patterns` stand for in `dir`, sorted. Blank
patterns stand for nothing. -/
def findTemplates (dir : Bytes) (patterns : List Bytes) :
    m (Except DiscoveryError (List Bytes)) := do
  let texts := (patterns.map Bytes.trim).filter (!·.isEmpty)
  return (← Pattern.templatesOf (texts.map (Pattern.ofText dir))).map sortedSet

end DomTemplate
