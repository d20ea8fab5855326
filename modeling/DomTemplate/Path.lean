import DomTemplate.Bytes

/-! Slash-separated paths, by their text alone: nothing here looks at files. -/

namespace DomTemplate.Path
open Ascii

def isAbsolute (p : Bytes) : Bool := p.head? == some slash

/-- The names between slashes, without empty ones. -/
def names (p : Bytes) : List Bytes := (Bytes.splitOn slash p).filter (!·.isEmpty)

def here : Bytes := [dot]

def up : Bytes := [dot, dot]

/-- Follow one name from a place given by its names, the last first. Above the root there
is nothing; above a relative start, `..` is kept. -/
def follow (rooted : Bool) (stack : List Bytes) (name : Bytes) : List Bytes :=
  if name = here then stack
  else if name = up then
    match stack with
    | [] => if rooted then [] else [up]
    | top :: rest => if top = up then up :: stack else rest
  else name :: stack

/-- The names of the shortest equal path. -/
def cleanNames (rooted : Bool) (names : List Bytes) : List Bytes :=
  (names.foldl (follow rooted) []).reverse

/-- The path made of names. -/
def ofNames (rooted : Bool) (names : List Bytes) : Bytes :=
  if rooted then slash :: Bytes.join [slash] names
  else if names.isEmpty then here
  else Bytes.join [slash] names

/-- The shortest path that leads to the same place. -/
def clean (p : Bytes) : Bytes := ofNames (isAbsolute p) (cleanNames (isAbsolute p) (names p))

/-- The paths after each other, cleaned; empty ones in front are left out. -/
def join (paths : List Bytes) : Bytes :=
  match paths.dropWhile List.isEmpty with
  | [] => []
  | rest => clean (Bytes.join [slash] rest)

/-- The path up to and with its last slash, and the name after it. -/
def split (p : Bytes) : Bytes × Bytes :=
  let name := (p.reverse.takeWhile (· != slash)).reverse
  (p.take (p.length - name.length), name)

/-- The last name of a path. -/
def base (p : Bytes) : Bytes :=
  if p.isEmpty then here
  else
    let name := (split (Bytes.dropWhileRight (· == slash) p)).2
    if name.isEmpty then [slash] else name

/-- The directory that a path is in. -/
def dir (p : Bytes) : Bytes := clean (split p).1

/-- The names that lead from the place `start` to the place `p`. -/
def way : (start p : List Bytes) → List Bytes
  | a :: as, b :: bs => if a = b then way as bs else (a :: as).map (fun _ => up) ++ b :: bs
  | as, bs => as.map (fun _ => up) ++ bs

/-- `p` as seen from `start`, both absolute. -/
def relative (start p : Bytes) : Bytes :=
  ofNames false (way (cleanNames true (names start)) (cleanNames true (names p)))

/-- The name up to its first dot; a name that starts with a dot is kept whole. -/
def stem (name : Bytes) : Bytes :=
  if name.head? = some dot then name else name.takeWhile (· != dot)

end DomTemplate.Path
