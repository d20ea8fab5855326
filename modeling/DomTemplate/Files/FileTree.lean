import DomTemplate.Files.Error
import DomTemplate.Files.Folder
import DomTemplate.Path

/-! The operations of a file system on a tree with a current directory. Paths are followed
name by name: every name but the last has to lead to a folder. -/

namespace DomTemplate
open Ascii

structure FileTree where
  root : Folder
  /-- The place that relative paths start from. -/
  current : List Bytes
  deriving DecidableEq, Repr

namespace FileTree

def longestName : Nat := 255

def longestPath : Nat := 4095

/-- The place reached from `place` by a list of names, of which the last need not exist. -/
def follow (root : Folder) (place : List Bytes) : List Bytes → Except FileCause (List Bytes)
  | [] => .ok place
  | name :: names =>
    match root.get? place with
    | none => .error .noEntry
    | some (.file _) => .error .notDirectory
    | some (.folder _) =>
      if name.isEmpty || name == Path.here then follow root place names
      else if name = Path.up then follow root place.dropLast names
      else if longestName < name.length then .error .nameTooLong
      else follow root (place ++ [name]) names

/-- The place that a path leads to. -/
def locate (t : FileTree) (path : Bytes) : Except FileCause (List Bytes) :=
  if path.any (· == nul) then .error .invalidArgument
  else if path.isEmpty then .error .noEntry
  else if longestPath < path.length then .error .nameTooLong
  else follow t.root (if Path.isAbsolute path then [] else t.current) (Bytes.splitOn slash path)

/-- What a path leads to. -/
def entry (t : FileTree) (path : Bytes) : Except FileCause Entry := do
  match t.root.get? (← t.locate path) with
  | some e => return e
  | none => throw .noEntry

def isDirectory (t : FileTree) (path : Bytes) : Except FileCause Bool := do
  match ← t.entry path with
  | .folder _ => return true
  | .file _ => return false

/-- The names of the regular files directly in a directory. -/
def list (t : FileTree) (path : Bytes) : Except FileCause (List Bytes) := do
  match ← t.entry path with
  | .folder inner => return inner.fileNames
  | .file _ => throw .notDirectory

/-- The paths of the regular files at or below `path`, reached without entering directories
whose name is skipped. -/
def filesBelow (t : FileTree) (skip : Bytes → Bool) (path : Bytes) :
    Except FileCause (List Bytes) := do
  match ← t.entry path with
  | .file _ => return [path]
  | .folder inner => return (inner.places skip).map fun place => Path.join (path :: place)

def makeDirectory (t : FileTree) (path : Bytes) : Except FileCause FileTree := do
  let bare := Bytes.dropWhileRight (· == slash) path
  let place ← t.locate (if bare.isEmpty then path else bare)
  match t.root.get? place with
  | some _ => throw .alreadyExists
  | none => return { t with root := t.root.put place (.folder .empty) }

/-- A new empty file. -/
def create (t : FileTree) (path : Bytes) : Except FileCause FileTree := do
  let place ← t.locate path
  match t.root.get? place with
  | some _ => throw .alreadyExists
  | none => return { t with root := t.root.put place (.file []) }

/-- The file at `path` with new content. -/
def write (t : FileTree) (path content : Bytes) : Except FileCause FileTree := do
  let place ← t.locate path
  return { t with root := t.root.put place (.file content) }

/-- The file at `old` moved to `new`, where a file is replaced and a directory is not. -/
def rename (t : FileTree) (old new : Bytes) : Except FileCause FileTree := do
  let moved ← t.entry old
  let start ← t.locate old
  let goal ← t.locate new
  match t.root.get? goal with
  | some (.folder _) => throw .alreadyExists
  | _ => return { t with root := (t.root.erase start).put goal moved }

def remove (t : FileTree) (path : Bytes) : Except FileCause FileTree := do
  let place ← t.locate path
  match t.root.get? place with
  | some _ => return { t with root := t.root.erase place }
  | none => throw .noEntry

end FileTree
end DomTemplate
