import DomTemplate.Intent
import DomTemplate.Text.Quoted

/-! Intents as indented lines of nested lists, one entry a line, with texts quoted. -/

namespace DomTemplate.Intent
open Ascii

def indented (depth : Nat) (line : Bytes) : Bytes :=
  Bytes.replicate (2 * depth) space ++ line ++ [lf]

mutual

def dumpAt (depth : Nat) : Intent → Bytes
  | absent => indented depth (utf8 "nil")
  | ignore => indented depth (utf8 "(ignore)")
  | content text => indented depth (utf8 "(content " ++ text.quoted ++ utf8 ")")
  | expression code => indented depth (utf8 "(expr " ++ code.quoted ++ utf8 ")")
  | statement code => indented depth (utf8 "(stmt " ++ code.quoted ++ utf8 ")")
  | create ref tag setup =>
    indented depth (utf8 "(create " ++ ref) ++ dumpContainer? (depth + 1) tag ++
      dumpContainer? (depth + 1) setup ++ indented depth (utf8 ")")
  | container c => dumpContainer depth c
  | attr target kind name value =>
    indented depth (utf8 "(attr " ++ kind.render ++ [space] ++ target) ++
      dumpContainer? (depth + 1) name ++ dumpContainer? (depth + 1) value ++
      indented depth (utf8 ")")

def dumpContainer? (depth : Nat) : Option (Container Intent) → Bytes
  | none => indented depth (utf8 "nil")
  | some c => dumpContainer depth c

def dumpContainer (depth : Nat) : Container Intent → Bytes
  | ⟨target, []⟩ => indented depth (utf8 "(container " ++ target ++ utf8 ")")
  | ⟨target, n :: ns⟩ =>
    indented depth (utf8 "(container " ++ target) ++ dumpAt (depth + 1) n ++
      dumpNodes (depth + 1) ns ++ indented depth (utf8 ")")

def dumpNodes (depth : Nat) : List Intent → Bytes
  | [] => []
  | n :: ns => dumpAt depth n ++ dumpNodes depth ns

end

def dump (n : Intent) : Bytes := dumpAt 0 n

end DomTemplate.Intent
