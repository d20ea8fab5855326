import DomTemplate.Command.Run

/-! The program: the command on the system it runs on. -/

namespace DomTemplate.LocalHost

def textOf (b : Bytes) : String := (String.fromUTF8? ⟨b.toArray⟩).getD ""

/-- The cause that an error number stands for; numbers may be negative. -/
def causeOf (code : UInt32) (details : String) : FileCause :=
  let n := if code.toNat < 0x80000000 then code.toNat else 0x100000000 - code.toNat
  if n = 2 then .noEntry
  else if n = 17 then .alreadyExists
  else if n = 20 then .notDirectory
  else if n = 21 then .isDirectory
  else if n = 22 then .invalidArgument
  else if n = 36 then .nameTooLong
  else .other (utf8 details)

def causeOfError : IO.Error → FileCause
  | .alreadyExists _ code details | .invalidArgument _ code details
  | .permissionDenied _ code details | .resourceExhausted _ code details
  | .inappropriateType _ code details | .noSuchThing _ code details
  | .noFileOrDirectory _ code details | .interrupted _ code details
  | .otherError code details | .resourceBusy code details | .resourceVanished code details
  | .unsupportedOperation code details | .hardwareFault code details
  | .unsatisfiedConstraints code details | .illegalOperation code details
  | .protocolError code details | .timeExpired code details => causeOf code details
  | .unexpectedEof => .other (utf8 "unexpected end of file")
  | .userError details => .other (utf8 details)

/-- The result of an action on files, or why it was refused. -/
def attempt {α : Type} (op : FileOp) (paths : List Bytes) (action : IO α) :
    IO (Except FileError α) := do
  match ← action.toBaseIO with
  | .ok a => return .ok a
  | .error e => return .error ⟨op, paths, causeOfError e⟩

def readFile (path : Bytes) : IO (Except FileError Bytes) := do
  match ← attempt .openFile [path] (IO.FS.readBinFile (textOf path)) with
  | .ok content => return .ok content.toList
  | .error e => return .error (if e.cause = .isDirectory then { e with op := .read } else e)

/-- A file can be read; a directory is refused for being one. -/
def isDirectory (op : FileOp) (path : Bytes) : IO (Except FileError Bool) := do
  match ← readFile path with
  | .ok _ => return .ok false
  | .error e => return if e.cause = .isDirectory then .ok true else .error { e with op }

/-- The names in a directory, with those of directories marked. -/
def entries (path : Bytes) : IO (List (Bytes × Bool)) := do
  let dir := (← IO.currentDir) / textOf path
  (← dir.readDir).toList.mapM fun entry => do
    return (utf8 entry.fileName, (← entry.path.metadata).type == .dir)

partial def filesIn (skip : Bytes → Bool) (path : Bytes) : IO (List Bytes) := do
  let found ← (← entries path).mapM fun (name, isDir) => do
    if !isDir then return [Path.join [path, name]]
    else if skip name then return []
    else filesIn skip (Path.join [path, name])
  return found.flatten

def filesBelow (skip : Bytes → Bool) (path : Bytes) : IO (Except FileError (List Bytes)) := do
  match ← isDirectory .lstat path with
  | .error e => return .error e
  | .ok false => return .ok [path]
  | .ok true => attempt .openFile [path] (filesIn skip path)

partial def readAll (input : IO.FS.Stream) (soFar : ByteArray) : IO ByteArray := do
  let chunk ← input.read 65536
  if chunk.isEmpty then return soFar else readAll input (soFar ++ chunk)

/-- Numbers to try for temporary files. -/
def randomNumbers : (count : Nat) → IO (List Bytes)
  | 0 => return []
  | count + 1 => do return Bytes.decimal (← IO.rand 0 0xFFFFFFFF) :: (← randomNumbers count)

def put (stream : IO.FS.Stream) (text : Bytes) : IO Unit := do
  stream.write ⟨text.toArray⟩
  stream.flush

instance : Host IO where
  currentDirectory := do return utf8 (← IO.currentDir).toString
  readFile := readFile
  isDirectory := isDirectory .stat
  list path := attempt .openFile [path] do
    return (← entries path).filterMap fun (name, isDir) => if isDir then none else some name
  filesBelow := filesBelow
  makeDirectory path := attempt .mkdir [path] (IO.FS.createDir (textOf path))
  temporaryNumbers := randomNumbers 100
  create path := attempt .openFile [path] do
    let _ ← IO.FS.Handle.mk (textOf path) .writeNew
  write path content :=
    attempt .write [path] (IO.FS.writeBinFile (textOf path) ⟨content.toArray⟩)
  publish path := attempt .chmod [path] (IO.setAccessRights (textOf path)
    { user := { read := true, write := true }, group := { read := true },
      other := { read := true } })
  close _ := return .ok ()
  rename old new := do
    match ← isDirectory .stat new with
    | .ok true => return .error ⟨.rename, [old, new], .alreadyExists⟩
    | _ => attempt .rename [old, new] (IO.FS.rename (textOf old) (textOf new))
  remove path := attempt .remove [path] (IO.FS.removeFile (textOf path))
  readInput := do return (← readAll (← IO.getStdin) ByteArray.empty).toList
  writeOutput text := do put (← IO.getStdout) text
  writeError text := do put (← IO.getStderr) text
  log entry := do put (← IO.getStderr) entry.line

/-- Run the command, and answer its exit status. -/
def run (args : List String) : IO UInt32 := do
  match ← (Command.run (args.map utf8) : ExceptT Crash IO Nat).run with
  | .ok code => return code.toUInt32
  | .error crash =>
    put (← IO.getStderr) (utf8 "panic: " ++ crash.message ++ [Ascii.lf])
    return 2

end DomTemplate.LocalHost

def main (args : List String) : IO UInt32 := DomTemplate.LocalHost.run args
