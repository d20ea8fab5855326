import DomTemplate.Markup.Escape
import DomTemplate.Target

/-! Exported code in its wrapper: bare, as a view model class, or as an HTML page that runs
the class. A page is a list of items, so that its two renderings, as laid out and
minified, show the same content. -/

namespace DomTemplate
open Ascii

inductive PageKind where
  /-- The code on its own. -/
  | bare
  /-- A view model class that is instantiated at once. -/
  | viewModel
  /-- A page that runs the Ruby class by a script loader. -/
  | iife
  /-- A page that fetches a Ruby interpreter and has it run the class. -/
  | umd
  /-- A page that runs the JavaScript class as a module. -/
  | moduleScript
  deriving DecidableEq, Repr

namespace PageKind

def all : List PageKind := [bare, viewModel, iife, umd, moduleScript]

def name : PageKind → Bytes
  | bare => utf8 "raw"
  | viewModel => utf8 "class"
  | iife => utf8 "iife"
  | umd => utf8 "umd"
  | moduleScript => utf8 "module"

/-- The kind called `name`; a class if it is empty. -/
def ofName? (name : Bytes) : Option PageKind :=
  if name.isEmpty then some viewModel else all.find? fun k => k.name == name

/-- The kind is a whole HTML page. -/
def isHtml : PageKind → Bool
  | iife | umd | moduleScript => true
  | bare | viewModel => false

/-- The one language that a page kind can run. -/
def language? : PageKind → Option Target
  | iife | umd => some .ruby
  | moduleScript => some .javascript
  | bare | viewModel => none

/-- The extension of a file of this kind with code in `target`. -/
def extension (k : PageKind) (target : Target) : Bytes :=
  if k.isHtml then utf8 ".html"
  else match target with
    | .javascript => utf8 ".js"
    | .ruby => utf8 ".rb"

end PageKind

/-- The language meant by the name of a target: JavaScript for its name, else Ruby. -/
def Target.ofPageName (name : Bytes) : Target :=
  if name = Target.javascript.name then .javascript else .ruby

structure PageData where
  viewModel : Bytes
  /-- The id of the element that the page mounts the view model in. -/
  rootId : Bytes
  rootRef : Bytes
  document : Bytes
  body : Bytes
  deriving DecidableEq, Repr

namespace PageData

/-- The data with names in place of empty ones. -/
def withDefaults (d : PageData) : PageData where
  viewModel := if d.viewModel.isEmpty then utf8 "ViewModel" else d.viewModel
  rootId := if d.rootId.isEmpty then utf8 "root" else d.rootId
  rootRef := if d.rootRef.isEmpty then utf8 "root" else d.rootRef
  document := if d.document.isEmpty then utf8 "document" else d.document
  body := d.body

end PageData

/-- `n` blanks before every line that is not empty. -/
def indentLines (n : Nat) (s : Bytes) : Bytes :=
  Bytes.join [lf] ((Bytes.splitOn lf s).map fun line =>
    if line.isEmpty then line else Bytes.replicate n space ++ line)

/-- Escapes of a string between double quotes in either language. -/
def quoteRules : List Rule :=
  [.ofStrings "\\" "\\\\", .ofStrings "\"" "\\\""] ++ Target.scriptRules

def quoteId (id : Bytes) : Bytes := quote :: Rule.applyAll quoteRules id ++ [quote]

/-- Escapes of a text put between backticks. -/
def backtickRules : List Rule :=
  [.ofStrings "\\" "\\\\", .ofStrings "`" "\\`", .ofStrings "$\x7b" "\\$\x7b"]

/-- Lines put under each other, without a line feed at the end. -/
def textLines (lines : List Bytes) : Bytes := Bytes.join [lf] lines

namespace PageData

/-- The view model class in Ruby. -/
def rubyClass (d : PageData) : Bytes :=
  textLines
    [utf8 "class " ++ d.viewModel,
     utf8 "  def initialize",
     utf8 "    setup_dom",
     utf8 "  end",
     [],
     utf8 "  private",
     [],
     utf8 "  def setup_dom",
     indentLines 4 d.body,
     utf8 "  end",
     [],
     utf8 "  def " ++ d.document,
     utf8 "    JS.global[:document]",
     utf8 "  end",
     [],
     utf8 "  def " ++ d.rootRef,
     utf8 "    " ++ d.document ++ utf8 ".getElementById(" ++ quoteId d.rootId ++ utf8 ")",
     utf8 "  end",
     utf8 "end",
     [],
     d.viewModel ++ utf8 ".new"]

/-- The view model class in JavaScript. -/
def javascriptClass (d : PageData) : Bytes :=
  textLines
    [utf8 "class " ++ d.viewModel ++ utf8 " \x7b",
     utf8 "  constructor() \x7b",
     utf8 "    this.setupDom();",
     utf8 "  \x7d",
     [],
     utf8 "  setupDom() \x7b",
     utf8 "    const " ++ d.rootRef ++ utf8 " = " ++ d.document ++ utf8 ".getElementById(" ++
       quoteId d.rootId ++ utf8 ");",
     indentLines 4 d.body,
     utf8 "  \x7d",
     utf8 "\x7d",
     [],
     utf8 "new " ++ d.viewModel ++ utf8 "();"]

def classText (d : PageData) : Target → Bytes
  | .ruby => d.rubyClass
  | .javascript => d.javascriptClass

end PageData

/-- A piece of an HTML page. -/
inductive PageItem where
  | markup (text : Bytes)
  /-- White space between tags. -/
  | gap (text : Bytes)
  /-- The text of a script element. -/
  | script (text : Bytes)
  /-- The start tag of the element with the given id. -/
  | mount (id : Bytes)
  deriving DecidableEq, Repr

namespace PageItem

def render : PageItem → Bytes
  | markup text | gap text | script text => text
  | mount id => utf8 "<div id=\"" ++ Markup.escape id ++ utf8 "\">"

/-- The end of a page: its body with the mount element. -/
def bodyItems (id : Bytes) : List PageItem :=
  [.gap (utf8 "\n  "), .markup (utf8 "<body>"), .gap (utf8 "\n    "), .mount id,
   .markup (utf8 "</div>"), .gap (utf8 "\n  "), .markup (utf8 "</body>"), .gap (utf8 "\n"),
   .markup (utf8 "</html>")]

/-- Start tag, text and end tag of a script. -/
def scriptItems (start text : Bytes) : List PageItem :=
  [.markup start, .script text, .markup (utf8 "</script>")]

end PageItem

namespace PageData
open PageItem

def iifeLoader : Bytes :=
  utf8 ("<script src=\"https://cdn.jsdelivr.net/npm/ruby-head-wasm-wasi@2.1.0/dist/" ++
    "browser.script.iife.js\"></script>")

def iifeItems (d : PageData) : List PageItem :=
  [.markup (utf8 "<html>"), .gap (utf8 "\n  "), .markup (utf8 "<head>"), .gap (utf8 "\n    "),
   .markup iifeLoader, .gap (utf8 "\n    ")] ++
  scriptItems (utf8 "<script type=\"text/ruby\">")
    (utf8 "\n      require 'js'\n\n" ++ indentLines 6 d.rubyClass ++ utf8 "\n    ") ++
  [.gap (utf8 "\n  "), .markup (utf8 "</head>")] ++ bodyItems d.rootId

def umdLoader : Bytes :=
  utf8 ("<script src=\"https://cdn.jsdelivr.net/npm/@ruby/wasm-wasi@latest/dist/" ++
    "browser.umd.js\"></script>")

/-- The script of a `umd` page up to the code that the interpreter evaluates. -/
def umdPrelude : Bytes :=
  utf8 "\n" ++ textLines
    [utf8 "    const \x7b DefaultRubyVM \x7d = window[\"ruby-wasm-wasi\"];",
     utf8 "    const main = async () => \x7b",
     utf8 "      // Fetch and instantiate WebAssembly binary",
     utf8 "      const response = await fetch(",
     utf8 ("        //      Tips: Replace the binary with debug info if you want symbolicated " ++
       "stack trace."),
     utf8 "        //      (only nightly release for now)",
     utf8 ("        //      \"https://cdn.jsdelivr.net/npm/ruby-3_2-wasm-wasi@next/dist/" ++
       "ruby.debug+stdlib.wasm\""),
     utf8 ("        \"https://cdn.jsdelivr.net/npm/ruby-3_2-wasm-wasi@latest/dist/" ++
       "ruby+stdlib.wasm\""),
     utf8 "      );",
     utf8 "      const buffer = await response.arrayBuffer();",
     utf8 "      const module = await WebAssembly.compile(buffer);",
     utf8 "      const \x7b vm \x7d = await DefaultRubyVM(module);",
     [],
     utf8 "      vm.printVersion();",
     utf8 "      vm.eval("]

/-- What the interpreter evaluates, between backticks. -/
def umdProgram (d : PageData) : Bytes :=
  utf8 "\n        require 'js'\n\n" ++
    indentLines 8 (Rule.applyAll backtickRules d.rubyClass) ++ utf8 "\n      "

def umdEnd : Bytes := utf8 ");\n    \x7d;\n\n    main();\n  "

def umdItems (d : PageData) : List PageItem :=
  [.markup (utf8 "<html>"), .gap (utf8 "\n  "), .markup umdLoader, .gap (utf8 "\n  ")] ++
  scriptItems (utf8 "<script>")
    (umdPrelude ++ [backtick] ++ d.umdProgram ++ [backtick] ++ umdEnd) ++
  bodyItems d.rootId

def moduleItems (d : PageData) : List PageItem :=
  [.markup (utf8 "<html>"), .gap (utf8 "\n  "), .markup (utf8 "<head>"), .gap (utf8 "\n    ")] ++
  scriptItems (utf8 "<script type=\"module\">")
    (utf8 "\n" ++ indentLines 6 d.javascriptClass ++ utf8 "\n    ") ++
  [.gap (utf8 "\n  "), .markup (utf8 "</head>")] ++ bodyItems d.rootId

end PageData

/-- A rendered wrapper: code, or the items of an HTML page. -/
inductive Page where
  | code (text : Bytes)
  | html (items : List PageItem)
  deriving DecidableEq, Repr

namespace Page

/-- Why a page cannot be made: its kind runs another language. -/
inductive Error where
  | wrongLanguage (kind : PageKind) (needed : Target)
  deriving DecidableEq, Repr

def Error.message : Error → Bytes
  | wrongLanguage kind needed =>
    utf8 "template " ++ kind.name ++ utf8 " requires the " ++ needed.name ++ utf8 " target"

/-- Wrap code of the language `target`, which the kind can run. -/
def wrap (kind : PageKind) (target : Target) (data : PageData) : Page :=
  let d := data.withDefaults
  match kind with
  | .bare => .code d.body
  | .viewModel => .code (d.classText target)
  | .iife => .html d.iifeItems
  | .umd => .html d.umdItems
  | .moduleScript => .html d.moduleItems

/-- Wrap code of the language `target`, unless the kind runs another one. -/
def make (kind : PageKind) (target : Target) (data : PageData) : Except Error Page :=
  match kind.language? with
  | some needed =>
    if target = needed then .ok (wrap kind target data) else .error (.wrongLanguage kind needed)
  | none => .ok (wrap kind target data)

def render : Page → Bytes
  | code text => text
  | html items => items.flatMap PageItem.render

end Page
end DomTemplate
