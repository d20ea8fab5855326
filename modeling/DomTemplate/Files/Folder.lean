import DomTemplate.Bytes

/-! Trees of regular files. A folder is a list of named entries; a name leads to its first
entry. A place in a tree is the list of names that leads to it from the root. -/

namespace DomTemplate

inductive Folder where
  | empty
  | file (name content : Bytes) (rest : Folder)
  | folder (name : Bytes) (inner rest : Folder)
  deriving DecidableEq, Repr

/-- What a name leads to. -/
inductive Entry where
  | file (content : Bytes)
  | folder (inner : Folder)
  deriving DecidableEq, Repr

namespace Folder

/-- The folder with one more entry in front. -/
def add (name : Bytes) (rest : Folder) : Entry → Folder
  | .file content => .file name content rest
  | .folder inner => .folder name inner rest

def find? (name : Bytes) : Folder → Option Entry
  | empty => none
  | file m content rest => if m = name then some (.file content) else find? name rest
  | folder m inner rest => if m = name then some (.folder inner) else find? name rest

/-- What stands at a place. -/
def get? : Folder → List Bytes → Option Entry
  | d, [] => some (.folder d)
  | d, name :: names =>
    match d.find? name with
    | none => none
    | some (.file content) => if names = [] then some (.file content) else none
    | some (.folder inner) => inner.get? names

/-- The folder with `change` applied to the entry of `name`, absent or not. -/
def alterName (name : Bytes) (change : Option Entry → Option Entry) : Folder → Folder
  | empty =>
    match change none with
    | none => empty
    | some e => add name empty e
  | file m content rest =>
    if m = name then
      match change (some (.file content)) with
      | none => rest
      | some e => add name rest e
    else file m content (alterName name change rest)
  | folder m inner rest =>
    if m = name then
      match change (some (.folder inner)) with
      | none => rest
      | some e => add name rest e
    else folder m inner (alterName name change rest)

/-- The tree with `change` applied at a place below its root, if the folder of that place
exists. -/
def alter (change : Option Entry → Option Entry) : List Bytes → Folder → Folder
  | [], d => d
  | name :: names, d =>
    if names = [] then d.alterName name change
    else d.alterName name fun
      | some (.folder inner) => some (.folder (alter change names inner))
      | e => e

/-- The tree with `e` at a place. -/
def put (place : List Bytes) (e : Entry) (d : Folder) : Folder := d.alter (fun _ => some e) place

/-- The tree with nothing at a place. -/
def erase (place : List Bytes) (d : Folder) : Folder := d.alter (fun _ => none) place

/-- The names of the regular files directly in a folder. -/
def fileNames : Folder → List Bytes
  | empty => []
  | file name _ rest => name :: fileNames rest
  | folder _ _ rest => fileNames rest

/-- The places of the regular files in a folder and in the folders reachable from it
through names that are not skipped. -/
def places (skip : Bytes → Bool) : Folder → List (List Bytes)
  | empty => []
  | file name _ rest => [name] :: places skip rest
  | folder name inner rest =>
    (if skip name then [] else (places skip inner).map (name :: ·)) ++ places skip rest

end Folder
end DomTemplate
