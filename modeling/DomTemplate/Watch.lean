import DomTemplate.Build
import DomTemplate.Config.Load

/-! Watching a template: its page is made again whenever the template has changed. -/

namespace DomTemplate

structure Watcher where
  path : Bytes
  out : Bytes
  pipeline : Pipeline
  /-- The content that was read last. -/
  last : Option Bytes := none

/-- Why a template cannot be watched. -/
inductive WatchError where
  | load (error : LoadError)
  | config (error : ConfigError)
  deriving DecidableEq, Repr

def WatchError.message : WatchError → Bytes
  | load error => error.message
  | config error => error.message

namespace Watcher

variable {m : Type → Type} [Monad m] [Host m]

/-- The configuration for templates in `dir`: the nearest one, or else a page to open in a
browser. -/
def configFor (dir : Bytes) : ExceptT Crash m (Except LoadError Config) := do
  match ← (Config.find dir : m _) with
  | none => return .ok { template := utf8 "iife" }
  | some path => Config.load path

/-- Watch the template at `path` and write to `out`, or next to it if that is empty. -/
def start (path out : Bytes) : ExceptT Crash m (Except WatchError Watcher) := do
  match ← configFor (Path.dir path) with
  | .error e => return .error (.load e)
  | .ok c =>
    match Pipeline.ofConfig c with
    | .error e => return .error (.config e)
    | .ok pipeline =>
      return .ok { path, out := if out.isEmpty then pipeline.outPath path .code else out, pipeline }

/-- Report a problem and go on. -/
def problem (message : Bytes) : m Unit := writeErrorLine (utf8 "playground: " ++ message)

/-- Build the page from `src` and write it. -/
def regenerate (w : Watcher) (logging : Bool) (src : Bytes) : ExceptT Crash m Unit := do
  match ← buildReporting w.pipeline .code logging w.path w.path src with
  | none => return
  | some content =>
    match ← (writeGenerated w.out content : m _) with
    | .error e => (problem e.message : m Unit)
    | .ok _ => (logWhen logging (.about .info (utf8 "regenerated") w.out []) : m Unit)

/-- Look at the template once; the page is made again if the content differs from what was
read last. The watcher afterwards is the same whether or not the page could be made. -/
def poll (w : Watcher) (logging : Bool) : m (Watcher × Except Crash Unit) := do
  match ← Host.readFile w.path with
  | .error e =>
    problem (utf8 "read error: " ++ e.message)
    return (w, .ok ())
  | .ok src =>
    if w.last = some src then return (w, .ok ())
    else return ({ w with last := some src }, ← (w.regenerate logging src).run)

end Watcher
end DomTemplate
