import DomTemplate.Config.Decode
import DomTemplate.Files.Host
import DomTemplate.Path

/-! Finding and loading configuration files. -/

namespace DomTemplate

/-- Why a configuration file gives no configuration. -/
inductive LoadError where
  | unreadable (error : FileError)
  /-- The file was opened, but its content cannot be read. -/
  | broken (path : Bytes) (error : FileError)
  | malformed (path : Bytes) (error : Yaml.Error)
  | invalid (path : Bytes) (error : ConfigError)
  deriving DecidableEq, Repr

def LoadError.message : LoadError → Bytes
  | unreadable error => utf8 "failed to read config file: " ++ error.message
  | broken path error =>
    utf8 "failed to parse config file " ++ path ++ utf8 ": yaml: input error: " ++ error.message
  | malformed path error =>
    utf8 "failed to parse config file " ++ path ++ utf8 ": " ++ error.message
  | invalid path error => path ++ utf8 ": " ++ error.message

namespace Config

variable {m : Type → Type} [Monad m] [Host m]

/-- The configuration in the text of the file at `path`. -/
def ofFile (path text : Bytes) : Except Crash (Except LoadError Config) :=
  match ofYaml text with
  | .error (.crashed crash) => .error crash
  | .error (.refused e) => .ok (.error (.malformed path e))
  | .ok c =>
    match c.validate with
    | .ok () => .ok (.ok c)
    | .error e => .ok (.error (.invalid path e))

/-- The valid configuration in the file at `path`. -/
def load (path : Bytes) : ExceptT Crash m (Except LoadError Config) := do
  match ← (Host.readFile path : m _) with
  | .ok text => ExceptT.mk (return ofFile path text)
  | .error e => return .error (if e.op = .read then .broken path e else .unreadable e)

def fileName : Bytes := utf8 "rerb.yaml"

/-- The places of configuration files in a directory and in those above it, given by its
names from the last to the first. -/
def candidates : List Bytes → List Bytes
  | [] => [Path.join [Path.ofNames true [], fileName]]
  | name :: names =>
    Path.join [Path.ofNames true (name :: names).reverse, fileName] :: candidates names

/-- The first path at which there is a file. -/
def firstFile : List Bytes → m (Option Bytes)
  | [] => return none
  | path :: paths => do
    match ← Host.isDirectory path with
    | .ok false => return some path
    | _ => firstFile paths

/-- The path of the nearest configuration file for the directory `dir`. -/
def find (dir : Bytes) : m (Option Bytes) := do
  let current ← Host.currentDirectory
  let place := if Path.isAbsolute dir then dir else Path.join [current, dir]
  firstFile (candidates (Path.cleanNames true (Path.names place)).reverse)

end Config
end DomTemplate
