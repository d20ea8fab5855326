import DomTemplate.Files.Error
import DomTemplate.Log

/-! What a program asks of the system it runs on. -/

namespace DomTemplate

class Host (m : Type → Type) where
  /-- The absolute path of the current directory. -/
  currentDirectory : m Bytes
  readFile : Bytes → m (Except FileError Bytes)
  isDirectory : Bytes → m (Except FileError Bool)
  /-- The names of the regular files directly in a directory. -/
  list : Bytes → m (Except FileError (List Bytes))
  /-- The paths of the regular files at or below a path, reached without entering directories
  whose name is skipped. -/
  filesBelow : (skip : Bytes → Bool) → Bytes → m (Except FileError (List Bytes))
  makeDirectory : Bytes → m (Except FileError Unit)
  /-- Numbers to try for the name of a temporary file. -/
  temporaryNumbers : m (List Bytes)
  /-- A new empty file. -/
  create : Bytes → m (Except FileError Unit)
  write : (path content : Bytes) → m (Except FileError Unit)
  /-- Let everyone read a file. -/
  publish : Bytes → m (Except FileError Unit)
  close : Bytes → m (Except FileError Unit)
  rename : (old new : Bytes) → m (Except FileError Unit)
  remove : Bytes → m (Except FileError Unit)
  readInput : m Bytes
  writeOutput : Bytes → m Unit
  writeError : Bytes → m Unit
  log : LogEntry → m Unit

end DomTemplate
