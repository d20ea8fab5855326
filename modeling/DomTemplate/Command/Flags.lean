import DomTemplate.Config

/-! The flags of the command line: what they set, how arguments are read, and the text that
explains them. -/

namespace DomTemplate
open Ascii

/-- What the flags ask for. Settings of the configuration that no flag names are absent. -/
structure Options where
  config : Bytes := []
  target : Option Bytes := none
  template : Option Bytes := none
  rootId : Option Bytes := none
  rootRef : Option Bytes := none
  document : Option Bytes := none
  elementPrefix : Option Bytes := none
  text : Option Bytes := none
  delimiters : Option Bytes := none
  minify : Option Bool := none
  emit : Bytes := utf8 "code"
  debug : Bool := false
  out : Bytes := []
  write : Bool := false
  deriving DecidableEq, Repr

/-- The configuration with the settings that flags name. -/
def Options.override (o : Options) (c : Config) : Config where
  target := o.target.getD c.target
  template := o.template.getD c.template
  rootId := o.rootId.getD c.rootId
  rootRef := o.rootRef.getD c.rootRef
  document := o.document.getD c.document
  elementPrefix := o.elementPrefix.getD c.elementPrefix
  text := o.text.getD c.text
  delimiters := o.delimiters.getD c.delimiters
  minify := o.minify.getD c.minify
  viewModel := c.viewModel

/-- How a flag takes its value. -/
inductive FlagKind where
  /-- A text, after an equals sign or as the next argument. -/
  | text (set : Bytes → Options → Options)
  /-- True, or a truth value after an equals sign. -/
  | switch (set : Bool → Options → Options)

structure Flag where
  name : Bytes
  help : Bytes
  kind : FlagKind

namespace Flag

/-- All flags, by name. -/
def all : List Flag :=
  [⟨utf8 "config", utf8 "config file (defaults to the nearest rerb.yaml above cwd)",
    .text fun v o => { o with config := v }⟩,
   ⟨utf8 "debug", utf8 "enable debug logs", .switch fun v o => { o with debug := v }⟩,
   ⟨utf8 "document", utf8 "reference that owns createElement",
    .text fun v o => { o with document := some v }⟩,
   ⟨utf8 "el-prefix", utf8 "prefix for generated element references",
    .text fun v o => { o with elementPrefix := some v }⟩,
   ⟨utf8 "emit", utf8 "what to emit: code or ir (default \"code\")",
    .text fun v o => { o with emit := v }⟩,
   ⟨utf8 "minify", utf8 "minify HTML page output",
    .switch fun v o => { o with minify := some v }⟩,
   ⟨utf8 "o", utf8 "write output to this file instead of stdout",
    .text fun v o => { o with out := v }⟩,
   ⟨utf8 "root", utf8 "id of the mount element", .text fun v o => { o with rootId := some v }⟩,
   ⟨utf8 "root-ref", utf8 "reference top-level elements are appended to",
    .text fun v o => { o with rootRef := some v }⟩,
   ⟨utf8 "syntax", utf8 "code block syntax: brace or erb",
    .text fun v o => { o with delimiters := some v }⟩,
   ⟨utf8 "target", utf8 "output language: ruby or js",
    .text fun v o => { o with target := some v }⟩,
   ⟨utf8 "template", utf8 "wrapper: raw, class, iife, umd or module",
    .text fun v o => { o with template := some v }⟩,
   ⟨utf8 "text", utf8 "text policy: node or accumulate",
    .text fun v o => { o with text := some v }⟩,
   ⟨utf8 "w", utf8 "write one output file next to each template",
    .switch fun v o => { o with write := v }⟩]

def find? (name : Bytes) : Option Flag := all.find? fun f => f.name == name

/-- The lines on one flag. A short switch has its help on the same line. -/
def usage (f : Flag) : Bytes :=
  let head := utf8 "  -" ++ f.name
  match f.kind with
  | .text _ => head ++ utf8 " string\n    \t" ++ f.help ++ [lf]
  | .switch _ =>
    head ++ (if f.name.length = 1 then [tab] else utf8 "\n    \t") ++ f.help ++ [lf]

end Flag

/-- How the program is used. -/
def usage : Bytes :=
  utf8 "Usage: rerb [flags] FILE\n" ++
  utf8 "       rerb -w [flags] [paths...]\n" ++
  utf8 "\n" ++
  utf8 "Compiles an HTML template with embedded code into DOM-construction code.\n" ++
  utf8 "FILE may be - to read stdin. With -w, one output file is written next to\n" ++
  utf8 "each *.erb template found by the paths.\n" ++
  utf8 "\n" ++
  utf8 "Paths behave like Go patterns:\n" ++
  utf8 "  - ./...        recurse from cwd\n" ++
  utf8 "  - ./dir        only that directory (non-recursive)\n" ++
  utf8 "  - ./dir/...    recurse from that directory\n" ++
  utf8 "  - ./file.erb   only that file\n" ++
  utf8 "\n" ++
  utf8 "Flags override settings from rerb.yaml.\n" ++
  Flag.all.flatMap Flag.usage

/-- Why arguments cannot be read. -/
inductive FlagError where
  | badForm (argument : Bytes)
  | unknown (name : Bytes)
  | missingValue (name : Bytes)
  | notTruth (value name : Bytes)
  deriving DecidableEq, Repr

def FlagError.message : FlagError → Bytes
  | badForm argument => utf8 "bad flag syntax: " ++ argument
  | unknown name => utf8 "flag provided but not defined: -" ++ name
  | missingValue name => utf8 "flag needs an argument: -" ++ name
  | notTruth value name =>
    utf8 "invalid boolean value " ++ value.quoted ++ utf8 " for -" ++ name ++ utf8 ": parse error"

/-- The truth value written by `s`. -/
def truth? (s : Bytes) : Option Bool :=
  if [utf8 "1", utf8 "t", utf8 "T", utf8 "TRUE", utf8 "true", utf8 "True"].contains s then some true
  else if [utf8 "0", utf8 "f", utf8 "F", utf8 "FALSE", utf8 "false", utf8 "False"].contains s then
    some false
  else none

/-- What an argument is. -/
inductive Argument where
  /-- No flag; it and all after it are operands. -/
  | operand
  /-- The mark after which all arguments are operands. -/
  | finish
  /-- A flag, with the value after its equals sign. -/
  | flag (name : Bytes) (value : Option Bytes)
  | bad
  deriving DecidableEq, Repr

/-- The name and the value of a flag without its dashes. -/
def Argument.ofFlag (body : Bytes) : Argument :=
  let name := body.takeWhile (· != equals)
  if name.isEmpty || name.head? == some dash then .bad
  else match body.drop name.length with
    | [] => .flag name none
    | _ :: value => .flag name (some value)

def Argument.ofText : Bytes → Argument
  | [] => .operand
  | c :: body =>
    if c ≠ dash || body.isEmpty then .operand
    else if body = [dash] then .finish
    else .ofFlag (Bytes.trimPrefix [dash] body)

/-- Arguments as read. -/
inductive Arguments where
  | run (options : Options) (operands : List Bytes)
  | help
  | bad (error : FlagError)
  deriving DecidableEq, Repr

/-- Read arguments from the left, where the last of several values counts. -/
def Arguments.parse (o : Options) : List Bytes → Arguments
  | [] => .run o []
  | arg :: rest =>
    match Argument.ofText arg with
    | .operand => .run o (arg :: rest)
    | .finish => .run o rest
    | .bad => .bad (.badForm arg)
    | .flag name value =>
      match Flag.find? name, value, rest with
      | none, _, _ =>
        if name = utf8 "help" || name = utf8 "h" then .help else .bad (.unknown name)
      | some ⟨_, _, .switch set⟩, none, rest => parse (set true o) rest
      | some ⟨_, _, .switch set⟩, some v, rest =>
        match truth? v with
        | some b => parse (set b o) rest
        | none => .bad (.notTruth v name)
      | some ⟨_, _, .text set⟩, some v, rest => parse (set v o) rest
      | some ⟨_, _, .text set⟩, none, v :: rest => parse (set v o) rest
      | some ⟨_, _, .text _⟩, none, [] => .bad (.missingValue name)

end DomTemplate
