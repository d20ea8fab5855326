import DomTemplate.Files.Host
import DomTemplate.Path

/-! Writing generated files. A file that has its content already is not touched; any other
is written under a temporary name next to its place and then moved there, so that it is
never seen half written. -/

namespace DomTemplate
open Ascii

variable {m : Type → Type} [Monad m] [Host m]

/-- The part of a path before its last name, with the slash. -/
def parentPath (path : Bytes) : Bytes :=
  Bytes.dropWhileRight (· != slash) (Bytes.dropWhileRight (· == slash) path)

theorem length_parentPath_lt {path : Bytes} (h : parentPath path ≠ []) :
    (parentPath path).length < path.length := by
  have hdrop (p : UInt8 → Bool) (s : Bytes) : (s.dropWhile p).length ≤ s.length :=
    (List.dropWhile_suffix p).length_le
  simp only [parentPath, Bytes.dropWhileRight, List.reverse_reverse, ne_eq,
    List.reverse_eq_nil_iff, List.length_reverse] at h ⊢
  rw [← @List.length_reverse _ path]
  cases hr : path.reverse with
  | nil => simp [hr] at h
  | cons c cs =>
    by_cases hc : c = slash
    · have h1 := hdrop (· != slash) (cs.dropWhile (· == slash))
      have h2 := hdrop (· == slash) cs
      simp only [List.dropWhile_cons, hc, BEq.rfl, if_true, List.length_cons]
      omega
    · have h1 := hdrop (· != slash) cs
      simp only [List.dropWhile_cons, beq_iff_eq, hc, if_false, bne_iff_ne, ne_eq,
        not_false_eq_true, if_true, List.length_cons]
      omega

/-- Make the directory itself, where it is fine to find it made. -/
def makeLastDirectory (path : Bytes) : m (Except FileError Unit) := do
  match ← Host.makeDirectory path with
  | .ok () => return .ok ()
  | .error e =>
    match ← Host.isDirectory path with
    | .ok true => return .ok ()
    | _ => return .error e

/-- Make a directory and those above it, as far as they are missing. -/
def makeDirectories (path : Bytes) : m (Except FileError Unit) := do
  match ← Host.isDirectory path with
  | .ok true => return .ok ()
  | .ok false => return .error ⟨.mkdir, [path], .notDirectory⟩
  | .error _ =>
    if _h : parentPath path = [] then makeLastDirectory path
    else
      match ← makeDirectories (parentPath path) with
      | .ok () => makeLastDirectory path
      | .error e => return .error e
termination_by path.length
decreasing_by exact length_parentPath_lt _h

/-- `name` in the directory `dir`, which is kept as it is written. -/
def inDirectory (dir name : Bytes) : Bytes :=
  if dir.getLast? = some slash then dir ++ name else dir ++ [slash] ++ name

/-- A new empty file whose path is `stem` and one of the numbers; answers the path. Numbers
in use are passed over. -/
def createNumbered (stem : Bytes) : List Bytes → m (Except FileError Bytes)
  | [] => return .error ⟨.createTemp, [stem ++ [star]], .alreadyExists⟩
  | n :: ns => do
    match ← Host.create (stem ++ n) with
    | .ok () => return .ok (stem ++ n)
    | .error e => if e.cause = .alreadyExists then createNumbered stem ns else return .error e

/-- A new empty file in `dir`, hidden and named after `base`; answers its path. -/
def createTemporary (dir base : Bytes) : m (Except FileError Bytes) := do
  let stem := dot :: base ++ [dot]
  if base.any (· == slash) then
    return .error ⟨.createTemp, [stem ++ [star]], .separatorInPattern⟩
  else createNumbered (inDirectory dir stem) (← Host.temporaryNumbers)

/-- Fill the temporary file `path` and move it to `goal`. -/
def fillAndMove (path goal content : Bytes) : m (Except FileError Unit) := do
  match ← Host.write path content with
  | .error e => return .error e
  | .ok () =>
    match ← Host.publish path with
    | .error e => return .error e
    | .ok () =>
      match ← Host.close path with
      | .error e => return .error e
      | .ok () => Host.rename path goal

/-- Put `content` at `path` through a temporary file, which is gone afterwards. -/
def replaceFile (path content : Bytes) : m (Except FileError Unit) := do
  match ← makeDirectories (Path.dir path) with
  | .error e => return .error e
  | .ok () =>
    match ← createTemporary (Path.dir path) (Path.base path) with
    | .error e => return .error e
    | .ok temporary =>
      let result ← fillAndMove temporary path content
      let _ ← Host.remove temporary
      return result

/-- Put `content` at `path`, and say whether the file changed. -/
def writeGenerated (path content : Bytes) : m (Except FileError Bool) := do
  let replace : m (Except FileError Bool) := do
    return (← replaceFile path content).map fun _ => true
  match ← Host.readFile path with
  | .ok old => if old = content then return .ok false else replace
  | .error _ => replace

end DomTemplate
