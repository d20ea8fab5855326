import DomTemplate.Bytes

/-! Element names that change how markup is read: void elements have no content and
no closing tag, raw elements hold text up to their closing tag. -/

namespace DomTemplate.Markup

def voidNames : List Bytes :=
  ["area", "base", "br", "col", "embed", "hr", "img", "input", "link", "meta", "param", "source",
   "track", "wbr"].map utf8

/-- `name`, in lower case, is that of a void element. -/
def isVoid (name : Bytes) : Bool := voidNames.contains name

inductive RawElement where
  | iframe | noembed | noframes | noscript | plaintext | script | style | textarea | title | xmp
  deriving DecidableEq, Repr

namespace RawElement

def all : List RawElement :=
  [iframe, noembed, noframes, noscript, plaintext, script, style, textarea, title, xmp]

def name : RawElement → Bytes
  | iframe => utf8 "iframe"
  | noembed => utf8 "noembed"
  | noframes => utf8 "noframes"
  | noscript => utf8 "noscript"
  | plaintext => utf8 "plaintext"
  | script => utf8 "script"
  | style => utf8 "style"
  | textarea => utf8 "textarea"
  | title => utf8 "title"
  | xmp => utf8 "xmp"

/-- The raw element called `name` in any case. -/
def ofName? (name : Bytes) : Option RawElement :=
  all.find? fun e => e.name == Bytes.lower name

/-- Character references count in the content. -/
def decodesReferences : RawElement → Bool
  | textarea | title => true
  | _ => false

end RawElement
end DomTemplate.Markup
