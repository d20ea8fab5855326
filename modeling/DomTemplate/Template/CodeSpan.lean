import DomTemplate.Text.Blank
import DomTemplate.Template.Node

/-! The two ways of setting code off from markup, and how far a code block reaches.
Between braces, nested braces are counted and quoted strings are passed over; between
angle brackets and percent signs the block ends at the first closer. -/

namespace DomTemplate
open Ascii

inductive Delimiters where
  /-- `\{code\}` and `\{=code\}`. -/
  | brace
  /-- `<% code %>`, `<%= code %>` and `<%# comment %>`. -/
  | erb
  deriving DecidableEq, Repr

namespace Delimiters

def name : Delimiters → Bytes
  | brace => utf8 "brace"
  | erb => utf8 "erb"

/-- The delimiters called `name`; braces if it is empty. -/
def ofName? (name : Bytes) : Option Delimiters :=
  if name = [] ∨ name = utf8 "brace" then some brace
  else if name = utf8 "erb" then some erb
  else none

end Delimiters

/-- Quotes that set off a string inside code. -/
def isCodeQuote (b : UInt8) : Bool := b == quote || b == apostrophe || b == backtick

/-- Where a scan of code between braces stands. -/
inductive CodeState where
  | code
  | quoted (mark : UInt8)
  /-- After a backslash inside a string. -/
  | escaped (mark : UInt8)
  deriving DecidableEq, Repr

/-- The state after `c`, if `c` is not a brace outside strings. -/
def CodeState.next (c : UInt8) : CodeState → CodeState
  | code => if isCodeQuote c then quoted c else code
  | quoted mark => if c = backslash then escaped mark else if c = mark then code else quoted mark
  | escaped mark => quoted mark

/-- The number of braces left open after `c`. -/
def CodeState.depthAfter (c : UInt8) (depth : Nat) : CodeState → Nat
  | code => if c = lbrace then depth + 1 else if c = rbrace then depth - 1 else depth
  | _ => depth

/-- The text up to the brace that closes `depth + 1` open ones, and what follows it. -/
def braceSpan? : (state : CodeState) → (depth : Nat) → Bytes → Option (Bytes × Bytes)
  | _, _, [] => none
  | state, depth, c :: cs =>
    if state = .code ∧ c = rbrace ∧ depth = 0 then some ([], cs)
    else
      (braceSpan? (state.next c) (state.depthAfter c depth) cs).map fun (text, rest) =>
        (c :: text, rest)

theorem length_braceSpan?_lt {state : CodeState} {depth : Nat} {s text rest : Bytes}
    (h : braceSpan? state depth s = some (text, rest)) : rest.length < s.length := by
  induction s generalizing state depth text rest with
  | nil => simp [braceSpan?] at h
  | cons c cs ih =>
    rw [braceSpan?] at h
    split at h
    · simp only [Option.some.injEq, Prod.mk.injEq] at h
      rw [← h.2]; simp
    · simp only [Option.map_eq_some_iff] at h
      obtain ⟨⟨t, r⟩, hr, he⟩ := h
      simp only [Prod.mk.injEq] at he
      have := ih hr
      rw [← he.2]; simp only [List.length_cons]; omega

/-- What follows the quote `mark` that ends a string; a backslash takes the next byte
with it. -/
def afterQuoted? (mark : UInt8) : (escaped : Bool) → Bytes → Option Bytes
  | _, [] => none
  | escaped, c :: cs =>
    if escaped then afterQuoted? mark false cs
    else if c = backslash then afterQuoted? mark true cs
    else if c = mark then some cs
    else afterQuoted? mark false cs

theorem length_afterQuoted?_lt {mark : UInt8} {escaped : Bool} {s rest : Bytes}
    (h : afterQuoted? mark escaped s = some rest) : rest.length < s.length := by
  induction s generalizing escaped with
  | nil => simp [afterQuoted?] at h
  | cons c cs ih =>
    rw [afterQuoted?] at h
    simp only [List.length_cons]
    split at h
    · have := ih h; omega
    split at h
    · have := ih h; omega
    split at h
    · simp only [Option.some.injEq] at h
      rw [← h]; omega
    · have := ih h; omega

def erbOpen : Bytes := utf8 "<%"

def erbClose : Bytes := utf8 "%>"

def erbEscape : Bytes := utf8 "<%%"

/-- What follows the code block that `s` starts with. A brace after a backslash and an
escaped opener start none. -/
def Delimiters.afterBlock? (delimiters : Delimiters) (afterBackslash : Bool) (s : Bytes) :
    Option Bytes :=
  match delimiters, s with
  | _, [] => none
  | .brace, c :: cs =>
    if c = lbrace ∧ !afterBackslash then (braceSpan? .code 0 cs).map Prod.snd else none
  | .erb, c :: cs =>
    if erbOpen.isPrefixOf (c :: cs) && !erbEscape.isPrefixOf (c :: cs) then
      (Bytes.cut? erbClose (cs.drop 1)).map Prod.snd
    else none

theorem Delimiters.length_afterBlock?_lt {delimiters : Delimiters} {afterBackslash : Bool}
    {s rest : Bytes} (h : delimiters.afterBlock? afterBackslash s = some rest) :
    rest.length < s.length := by
  unfold afterBlock? at h
  split at h
  · simp at h
  · split at h
    · simp only [Option.map_eq_some_iff] at h
      obtain ⟨⟨t, r⟩, hr, rfl⟩ := h
      have := length_braceSpan?_lt hr
      simp only [List.length_cons]; omega
    · simp at h
  · split at h
    · simp only [Option.map_eq_some_iff] at h
      obtain ⟨⟨t, r⟩, hr, rfl⟩ := h
      have := Bytes.length_cut?_lt (by decide) hr
      simp only [List.length_drop, List.length_cons] at *; omega
    · simp at h

/-- The text `s` after a code block closes a tag before it opens another one. Quoted
attribute values and further code blocks are passed over; `afterEquals` says that a
value is due. -/
def closesTag (delimiters : Delimiters) (afterBackslash afterEquals : Bool) (s : Bytes) : Bool :=
  match s with
  | [] => false
  | c :: cs =>
    match hb : delimiters.afterBlock? afterBackslash (c :: cs) with
    | some rest =>
      have := Delimiters.length_afterBlock?_lt hb
      closesTag delimiters false false rest
    | none =>
      if c = gt then true
      else if c = lt then false
      else if (c = quote ∨ c = apostrophe) ∧ afterEquals then
        match hq : afterQuoted? c false cs with
        | some rest =>
          have := length_afterQuoted?_lt hq
          closesTag delimiters false false rest
        | none => false
      else
        closesTag delimiters (c == backslash) (c == equals || (afterEquals && isTagSpace c)) cs
termination_by s.length
decreasing_by all_goals simp only [List.length_cons] at *; omega

end DomTemplate
