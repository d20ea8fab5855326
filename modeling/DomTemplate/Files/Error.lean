import DomTemplate.Bytes

/-! Why the file system refuses an operation. -/

namespace DomTemplate

inductive FileCause where
  | noEntry
  | notDirectory
  | isDirectory
  | alreadyExists
  | nameTooLong
  | invalidArgument
  | separatorInPattern
  | other (wording : Bytes)
  deriving DecidableEq, Repr

def FileCause.render : FileCause → Bytes
  | noEntry => utf8 "no such file or directory"
  | notDirectory => utf8 "not a directory"
  | isDirectory => utf8 "is a directory"
  | alreadyExists => utf8 "file exists"
  | nameTooLong => utf8 "file name too long"
  | invalidArgument => utf8 "invalid argument"
  | separatorInPattern => utf8 "pattern contains path separator"
  | other wording => wording

inductive FileOp where
  | openFile | read | stat | lstat | mkdir | createTemp | write | chmod | close | rename | remove
  deriving DecidableEq, Repr

def FileOp.name : FileOp → Bytes
  | openFile => utf8 "open"
  | read => utf8 "read"
  | stat => utf8 "stat"
  | lstat => utf8 "lstat"
  | mkdir => utf8 "mkdir"
  | createTemp => utf8 "createtemp"
  | write => utf8 "write"
  | chmod => utf8 "chmod"
  | close => utf8 "close"
  | rename => utf8 "rename"
  | remove => utf8 "remove"

/-- A refused operation, with the paths as given to it. -/
structure FileError where
  op : FileOp
  paths : List Bytes
  cause : FileCause
  deriving DecidableEq, Repr

def FileError.message (e : FileError) : Bytes :=
  Bytes.join [Ascii.space] (e.op.name :: e.paths) ++ utf8 ": " ++ e.cause.render

end DomTemplate
