import DomTemplate.Build
import DomTemplate.Command.Flags
import DomTemplate.Config.Load
import DomTemplate.Files.Discovery

/-! The command: compile one template to the output or to a file, or every template found to
a file next to it. -/

namespace DomTemplate
open Ascii

namespace Command

variable {m : Type → Type} [Monad m] [Host m]

inductive UsageError where
  | emit (name : UnknownName)
  | outputWithWrite
  | notOneTemplate
  deriving DecidableEq, Repr

def UsageError.message : UsageError → Bytes
  | emit name => name.message
  | outputWithWrite => utf8 "cannot use -o with -w"
  | notOneTemplate => utf8 "expected exactly one template"

/-- What to do: write next to templates, or compile one. -/
inductive Task where
  | writeAll (patterns : List Bytes)
  | compile (template : Bytes)
  deriving DecidableEq, Repr

/-- What is asked for, unless it makes no sense. -/
def task (o : Options) (operands : List Bytes) : Except UsageError (Emit × Task) :=
  match Emit.named o.emit with
  | .error name => .error (.emit name)
  | .ok emit =>
    if o.write then
      if o.out.isEmpty then .ok (emit, .writeAll operands) else .error .outputWithWrite
    else
      match operands with
      | [template] => .ok (emit, .compile template)
      | _ => .error .notOneTemplate

/-- A problem of the whole run. -/
def problem (message : Bytes) : m Bool := do
  writeErrorLine (utf8 "rerb: " ++ message)
  return false

/-- The configuration: from the file that is named or found, with the settings of the flags. -/
def configure (o : Options) (dir : Bytes) : ExceptT Crash m (Except LoadError Config) := do
  let path ← if o.config.isEmpty then (Config.find dir : m _) else pure (some o.config)
  match path with
  | none => return .ok (o.override {})
  | some path =>
    match ← Config.load path with
    | .error e => return .error e
    | .ok c =>
      (logWhen o.debug (.about .debug (utf8 "loaded config") path []) : m Unit)
      return .ok (o.override c)

/-- `path` as seen from `dir`, where it lies below it. -/
def displayPath (dir path : Bytes) : Bytes :=
  let short := Path.relative dir path
  if short.startsWith Path.up then path else short

/-- Write the file for one template, and say whether that went well. -/
def generate (p : Pipeline) (emit : Emit) (logging : Bool) (dir path : Bytes) :
    ExceptT Crash m Bool := do
  match ← (Host.readFile path : m _) with
  | .error e => (problem e.message : m Bool)
  | .ok src =>
    match ← buildReporting p emit logging path (displayPath dir path) src with
    | none => return false
    | some content =>
      match ← (writeGenerated (p.outPath path emit) content : m _) with
      | .error e => (problem e.message : m Bool)
      | .ok changed =>
        (logWhen (logging && changed)
          (.about .info (utf8 "wrote") (displayPath dir (p.outPath path emit)) []) : m Unit)
        return true

/-- Write the files for all templates; one that fails does not keep the others from being
written. -/
def generateAll (p : Pipeline) (emit : Emit) (logging : Bool) (dir : Bytes) :
    List Bytes → ExceptT Crash m Bool
  | [] => return true
  | path :: paths => do
    let good ← generate p emit logging dir path
    let others ← generateAll p emit logging dir paths
    return good && others

def writeAll (p : Pipeline) (emit : Emit) (logging : Bool) (dir : Bytes) (patterns : List Bytes) :
    ExceptT Crash m Bool := do
  let patterns := if patterns.isEmpty then [utf8 "./..."] else patterns
  match ← (findTemplates dir patterns : m _) with
  | .error e => (problem e.message : m Bool)
  | .ok paths => generateAll p emit logging dir paths

/-- The source of a template and the path that it goes by: a dash means the input. -/
def readTemplate (template : Bytes) : m (Except FileError (Bytes × Bytes)) := do
  if template = [dash] then return .ok (utf8 "stdin.erb", ← Host.readInput)
  else return (← Host.readFile template).map fun src => (template, src)

def compile (p : Pipeline) (emit : Emit) (o : Options) (template : Bytes) :
    ExceptT Crash m Bool := do
  match ← (readTemplate template : m _) with
  | .error e => (problem e.message : m Bool)
  | .ok (path, src) =>
    match ← buildReporting p emit o.debug path path src with
    | none => return false
    | some content =>
      if o.out.isEmpty then
        (Host.writeOutput content : m Unit)
        return true
      else
        match ← (writeGenerated o.out content : m _) with
        | .error e => (problem e.message : m Bool)
        | .ok _ =>
          (logWhen o.debug (.about .info (utf8 "wrote") o.out []) : m Unit)
          return true

/-- Carry out a task, and say whether that went well. -/
def perform (o : Options) (emit : Emit) (t : Task) : ExceptT Crash m Bool := do
  let dir ← (Host.currentDirectory : m _)
  match ← configure o dir with
  | .error e => (problem e.message : m Bool)
  | .ok c =>
    match Pipeline.ofConfig c with
    | .error e => (problem e.message : m Bool)
    | .ok p =>
      match t with
      | .writeAll patterns => writeAll p emit o.debug dir patterns
      | .compile template => compile p emit o template

/-- Run the command with its arguments, and answer its exit status. -/
def run (args : List Bytes) : ExceptT Crash m Nat := do
  match Arguments.parse {} args with
  | .help =>
    (Host.writeError usage : m Unit)
    return 0
  | .bad e =>
    (Host.writeError (e.message ++ [lf] ++ usage) : m Unit)
    return 2
  | .run o operands =>
    match task o operands with
    | .error e =>
      (Host.writeError (utf8 "rerb: " ++ e.message ++ [lf] ++ usage) : m Unit)
      return 2
    | .ok (emit, t) => return if ← perform o emit t then 0 else 1

end Command
end DomTemplate
