import DomTemplate.Text.CodePoint

/-! Log entries, written as one JSON object a line. -/

namespace DomTemplate
open Ascii

inductive LogLevel where
  | debug
  | info
  deriving DecidableEq, Repr

def LogLevel.name : LogLevel → Bytes
  | debug => utf8 "debug"
  | info => utf8 "info"

inductive LogValue where
  | text (value : Bytes)
  | number (value : Nat)
  deriving DecidableEq, Repr

structure LogEntry where
  level : LogLevel
  fields : List (Bytes × LogValue)
  deriving DecidableEq, Repr

namespace LogEntry

/-- A byte of a JSON string. -/
def jsonByte (b : UInt8) : Bytes :=
  if b = quote || b = backslash then [backslash, b]
  else if b = lf then utf8 "\\n"
  else if b = cr then utf8 "\\r"
  else if b = tab then utf8 "\\t"
  else if b = 8 then utf8 "\\b"
  else if b = ff then utf8 "\\f"
  else if b < space then utf8 "\\u" ++ hexDigits 4 b.toNat
  else [b]

/-- A piece of a JSON string; what is not UTF-8 becomes the replacement character. -/
def jsonUnit : TextUnit → Bytes
  | .codePoint r =>
    if r < 0x80 then jsonByte r.toUInt8
    else if r = 0x2028 || r = 0x2029 then utf8 "\\u" ++ hexDigits 4 r
    else CodePoint.encode r
  | .stray _ => utf8 "\\ufffd"

def jsonString (s : Bytes) : Bytes := quote :: s.units.flatMap jsonUnit ++ [quote]

def jsonValue : LogValue → Bytes
  | .text value => jsonString value
  | .number value => Bytes.decimal value

def jsonField (f : Bytes × LogValue) : Bytes :=
  comma :: jsonString f.1 ++ [colon] ++ jsonValue f.2

/-- The line of an entry. -/
def line (e : LogEntry) : Bytes :=
  utf8 "\x7b\"level\":" ++ jsonString e.level.name ++ e.fields.flatMap jsonField ++ utf8 "\x7d\n"

/-- An entry about the file at `path`. -/
def about (level : LogLevel) (message path : Bytes) (more : List (Bytes × LogValue)) :
    LogEntry where
  level
  fields := (utf8 "msg", .text message) :: (utf8 "path", .text path) :: more

end LogEntry
end DomTemplate
