import DomTemplate.Config
import DomTemplate.Intent.Compile
import DomTemplate.Intent.Dump
import DomTemplate.Page.Minified
import DomTemplate.Page.ViewModel
import DomTemplate.Template.Parser

/-! From a template to a finished file: read, compile, export and wrap, with the settings of
one valid configuration. -/

namespace DomTemplate
open Ascii

/-- A configuration with its names resolved. -/
structure Pipeline where
  config : Config
  delimiters : Delimiters
  target : Target
  text : TextMode
  kind : PageKind

/-- A built file, and how many elements it creates. -/
structure Built where
  content : Bytes
  elements : Nat
  deriving DecidableEq, Repr

namespace Pipeline

def ofNames (c : Config) : Except UnknownName Pipeline := do
  let delimiters ← Delimiters.named c.delimiters
  let target ← Target.named c.target
  let text ← TextMode.named c.text
  let kind ← PageKind.named c.template
  return { config := c, delimiters, target, text, kind }

/-- The pipeline of a valid configuration. -/
def ofConfig (c : Config) : Except ConfigError Pipeline := do
  c.validate
  match ofNames c with
  | .ok p => return p
  | .error name => throw (.unknown name)

def compileOptions (p : Pipeline) : CompileOptions where
  root := p.config.rootRef
  elementPrefix := p.config.elementPrefix
  ref := p.target.ref

def exporter (p : Pipeline) : Exporter :=
  Exporter.withDefaults p.target p.config.rootRef p.config.document p.text

/-- The intents of the template `src`. -/
def intents (p : Pipeline) (src : Bytes) : Except Failure (Container Intent) := do
  let doc ← Document.parse p.delimiters src
  match doc.compile p.compileOptions with
  | .ok c => return c
  | .error e => throw (.refused e)

def codeOf (p : Pipeline) (c : Container Intent) : Except Failure Bytes :=
  match p.exporter.render (.container c) with
  | .ok code => .ok code
  | .error crash => .error (.crashed crash)

/-- The code of the template `src`, without a wrapper. -/
def body (p : Pipeline) (src : Bytes) : Except Failure Bytes := do
  p.codeOf (← p.intents src)

/-- The data of the page for the template at `path`. -/
def pageData (p : Pipeline) (path code : Bytes) : PageData where
  viewModel := if p.config.viewModel.isEmpty then Page.viewModelName path else p.config.viewModel
  rootId := p.config.rootId
  rootRef := p.config.rootRef
  document := p.config.document
  body := code

/-- A text with a line feed at its end. -/
def endLine (s : Bytes) : Bytes := if s.getLast? = some lf then s else s ++ [lf]

/-- Code in its wrapper. -/
def wrap (p : Pipeline) (path code : Bytes) : Bytes :=
  let page := Page.wrap p.kind p.target (p.pageData path code)
  endLine (if p.config.minify then page.renderMinified else page.render)

/-- The file for the template `src` at `path`. -/
def file (p : Pipeline) (path src : Bytes) (emit : Emit) : Except Failure Built := do
  let c ← p.intents src
  match emit with
  | .intents => return ⟨(Intent.container c).dump, (Intent.container c).elements⟩
  | .code => return ⟨p.wrap path (← p.codeOf c), (Intent.container c).elements⟩

/-- Where the file for the template at `path` goes: next to it, with all of its extensions
replaced by that of the output. -/
def outPath (p : Pipeline) (path : Bytes) (emit : Emit) : Bytes :=
  let extension := match emit with
    | .intents => utf8 ".ir"
    | .code => p.kind.extension p.target
  Path.join [(Path.split path).1, Path.stem (Path.split path).2 ++ extension]

end Pipeline

/-- Ruby code for the template `src` without a wrapper, with the given references or the
default ones where they are empty. -/
def compileTemplate (src root document : Bytes) : Except ConfigError (Except Failure Bytes) := do
  let defaults : Config := { template := utf8 "raw" }
  let p ← Pipeline.ofConfig
    { defaults with
      rootRef := if root.isEmpty then defaults.rootRef else root
      document := if document.isEmpty then defaults.document else document }
  return p.body src

end DomTemplate
