import DomTemplate.Yaml.Source

/-! Tokens of YAML texts, and why a text has none. Tokens that open and close block
collections stand for changes of indentation. -/

namespace DomTemplate.Yaml
open Ascii

/-- A place in a text, counted from zero. -/
structure Mark where
  index : Nat := 0
  line : Nat := 0
  column : Nat := 0
  deriving DecidableEq, Repr

/-- The place after a glyph. -/
def Mark.after (m : Mark) : Glyph → Mark
  | .char _ => { m with index := m.index + 1, column := m.column + 1 }
  | .newline kind => { index := m.index + kind.width, line := m.line + 1, column := 0 }

inductive TokenKind where
  | streamStart
  | streamEnd
  | version (major minor : Nat)
  | tagDirective (handle expansion : Bytes)
  | documentStart
  | documentEnd
  | blockSequenceStart
  | blockMappingStart
  | blockEnd
  | flowSequenceStart
  | flowSequenceEnd
  | flowMappingStart
  | flowMappingEnd
  | blockEntry
  | flowEntry
  | key
  | value
  | reference (name : Bytes)
  | anchor (name : Bytes)
  | tag (handle suffix : Bytes)
  | scalar (text : Bytes) (plain : Bool)
  deriving DecidableEq, Repr

structure Token where
  kind : TokenKind
  line : Nat
  /-- A fault of the text that has been met on the way to the token, without need. -/
  ahead : Option SourceFault := none
  deriving DecidableEq, Repr

/-- What is wrong with the form of a text. -/
inductive Fault where
  | noToken
  | noColon
  | valueNotAllowed
  | keyNotAllowed
  | entryNotAllowed
  | tooDeep
  | unknownDirective
  | noDirectiveName
  | badDirectiveName
  | directiveTail
  | versionDigit
  | longVersion
  | noVersion
  | directiveBlank
  | directivePrefixEnd
  | badAnchor
  | noTagEnd
  | tagTail
  | noBang
  | noUri
  | noOctet
  | badLeadingOctet
  | badTrailingOctet
  | zeroIndentation
  | blockHeaderTail
  | tabIndentation
  | tabInPlain
  | documentInQuoted
  | endInQuoted
  | unknownEscape
  | noHexadecimal
  | badEscapeCode
  | noDocumentStart
  | repeatedVersion
  | incompatibleVersion
  | repeatedTag
  | undefinedHandle
  | noContent
  | noDash
  | noKey
  | noSequenceEnd
  | noMappingEnd
  deriving DecidableEq, Repr

def Fault.render : Fault → Bytes
  | noToken => utf8 "found character that cannot start any token"
  | noColon => utf8 "could not find expected ':'"
  | valueNotAllowed => utf8 "mapping values are not allowed in this context"
  | keyNotAllowed => utf8 "mapping keys are not allowed in this context"
  | entryNotAllowed => utf8 "block sequence entries are not allowed in this context"
  | tooDeep => utf8 "exceeded max depth of 10000"
  | unknownDirective => utf8 "found unknown directive name"
  | noDirectiveName => utf8 "could not find expected directive name"
  | badDirectiveName => utf8 "found unexpected non-alphabetical character"
  | directiveTail => utf8 "did not find expected comment or line break"
  | versionDigit => utf8 "did not find expected digit or '.' character"
  | longVersion => utf8 "found extremely long version number"
  | noVersion => utf8 "did not find expected version number"
  | directiveBlank => utf8 "did not find expected whitespace"
  | directivePrefixEnd => utf8 "did not find expected whitespace or line break"
  | badAnchor => utf8 "did not find expected alphabetic or numeric character"
  | noTagEnd => utf8 "did not find the expected '>'"
  | tagTail => utf8 "did not find expected whitespace or line break"
  | noBang => utf8 "did not find expected '!'"
  | noUri => utf8 "did not find expected tag URI"
  | noOctet => utf8 "did not find URI escaped octet"
  | badLeadingOctet => utf8 "found an incorrect leading UTF-8 octet"
  | badTrailingOctet => utf8 "found an incorrect trailing UTF-8 octet"
  | zeroIndentation => utf8 "found an indentation indicator equal to 0"
  | blockHeaderTail => utf8 "did not find expected comment or line break"
  | tabIndentation => utf8 "found a tab character where an indentation space is expected"
  | tabInPlain => utf8 "found a tab character that violates indentation"
  | documentInQuoted => utf8 "found unexpected document indicator"
  | endInQuoted => utf8 "found unexpected end of stream"
  | unknownEscape => utf8 "found unknown escape character"
  | noHexadecimal => utf8 "did not find expected hexdecimal number"
  | badEscapeCode => utf8 "found invalid Unicode character escape code"
  | noDocumentStart => utf8 "did not find expected <document start>"
  | repeatedVersion => utf8 "found duplicate %YAML directive"
  | incompatibleVersion => utf8 "found incompatible YAML document"
  | repeatedTag => utf8 "found duplicate %TAG directive"
  | undefinedHandle => utf8 "found undefined tag handle"
  | noContent => utf8 "did not find expected node content"
  | noDash => utf8 "did not find expected '-' indicator"
  | noKey => utf8 "did not find expected key"
  | noSequenceEnd => utf8 "did not find expected ',' or ']'"
  | noMappingEnd => utf8 "did not find expected ',' or '\x7d'"

/-- A fault with the line to report it at; line zero is not reported. -/
structure FormError where
  line : Nat
  fault : Fault
  deriving DecidableEq, Repr

/-- The line to report of the lines, counted from zero, of a construct and of the place in it
where it breaks; the first line counts as unknown. -/
def reportedLine (construct place : Nat) : Nat := if construct ≠ 0 then construct else place

/-- Why a text cannot be read: its bytes are no characters, or its form is wrong. -/
inductive TextError where
  | source (fault : SourceFault)
  | form (error : FormError)
  deriving DecidableEq, Repr

/-- A fault in a construct that starts at `start`, found at `place` while tokens are read. -/
def lexicalError (start place : Mark) (fault : Fault) : TextError :=
  let line := reportedLine start.line place.line
  .form ⟨if line = 0 then 0 else line + 1, fault⟩

end DomTemplate.Yaml
