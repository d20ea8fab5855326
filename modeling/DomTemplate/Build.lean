import DomTemplate.Diagnostic
import DomTemplate.Files.Output
import DomTemplate.Pipeline

/-! Building files on a host: what is logged, and how failures are shown. -/

namespace DomTemplate

variable {m : Type → Type} [Monad m] [Host m]

/-- Log an entry, if logging is on. -/
def logWhen (logging : Bool) (entry : LogEntry) : m Unit :=
  if logging then Host.log entry else return

def writeErrorLine (text : Bytes) : m Unit := Host.writeError (text ++ [Ascii.lf])

/-- Build the template `src` at `path`. A failure is reported under the name `shown`. -/
def buildReporting (p : Pipeline) (emit : Emit) (logging : Bool) (path shown src : Bytes) :
    ExceptT Crash m (Option Bytes) := do
  match p.file path src emit with
  | .error (.crashed crash) => throw crash
  | .error (.refused e) =>
    (Host.writeError ((Diagnostic.ofError e).render shown src) : m Unit)
    return none
  | .ok built =>
    (logWhen (logging && emit == .code)
      (.about .debug (utf8 "built template") path
        [(utf8 "elements", .number built.elements), (utf8 "bytes", .number built.content.length)]) :
      m Unit)
    return some built.content

end DomTemplate
