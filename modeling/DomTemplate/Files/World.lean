import DomTemplate.Files.FileTree
import DomTemplate.Files.Host

/-! A system in memory: a tree of files, the input and what was written so far. Any operation
on a path may be refused for a reason of its own. -/

namespace DomTemplate

structure World where
  files : FileTree
  input : Bytes := []
  output : Bytes := []
  errors : Bytes := []
  temporaryNumbers : List Bytes := [utf8 "1"]
  /-- Causes for which operations fail whatever the tree is. -/
  refuses : FileOp → Bytes → Option FileCause := fun _ _ => none

abbrev InMemory := StateM World

namespace World

/-- The outcome of an operation on `path` that leaves the tree as it is. -/
def look {α : Type} (w : World) (op : FileOp) (path : Bytes)
    (result : FileTree → Except FileCause α) : Except FileError α :=
  match w.refuses op path with
  | some cause => .error ⟨op, [path], cause⟩
  | none =>
    match result w.files with
    | .ok a => .ok a
    | .error cause => .error ⟨op, [path], cause⟩

/-- The outcome of an operation on `path` that changes the tree. -/
def change (w : World) (op : FileOp) (path : Bytes) (paths : List Bytes)
    (result : FileTree → Except FileCause FileTree) : Except FileError Unit × World :=
  match w.refuses op path with
  | some cause => (.error ⟨op, paths, cause⟩, w)
  | none =>
    match result w.files with
    | .ok files => (.ok (), { w with files })
    | .error cause => (.error ⟨op, paths, cause⟩, w)

/-- The content of a file: it is opened, and then read. -/
def readFile (w : World) (path : Bytes) : Except FileError Bytes := do
  match ← w.look .openFile path fun t => t.entry path with
  | .file content => w.look .read path fun _ => .ok content
  | .folder _ => w.look .read path fun _ => .error .isDirectory

end World

instance : Host InMemory where
  currentDirectory := do return Path.ofNames true (← get).files.current
  readFile path := do return (← get).readFile path
  isDirectory path := do return (← get).look .stat path fun t => t.isDirectory path
  list path := do return (← get).look .openFile path fun t => t.list path
  filesBelow skip path := do return (← get).look .lstat path fun t => t.filesBelow skip path
  makeDirectory path := fun w => w.change .mkdir path [path] fun t => t.makeDirectory path
  temporaryNumbers := do return (← get).temporaryNumbers
  create path := fun w => w.change .openFile path [path] fun t => t.create path
  write path content := fun w => w.change .write path [path] fun t => t.write path content
  publish path := fun w => w.change .chmod path [path] .ok
  close path := fun w => w.change .close path [path] .ok
  rename old new := fun w => w.change .rename old [old, new] fun t => t.rename old new
  remove path := fun w => w.change .remove path [path] fun t => t.remove path
  readInput := do return (← get).input
  writeOutput text := modify fun w => { w with output := w.output ++ text }
  writeError text := modify fun w => { w with errors := w.errors ++ text }
  log e := modify fun w => { w with errors := w.errors ++ e.line }

end DomTemplate
