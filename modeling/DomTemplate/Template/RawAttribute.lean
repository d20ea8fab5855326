import DomTemplate.Template.Node
import DomTemplate.Markup.Tag

/-! The attributes of a start tag as written. Other than in the attributes that come with
a markup token, a key without a value and a key with an empty value stay apart. -/

namespace DomTemplate
open Ascii

def Quote.ofByte? (b : UInt8) : Option Quote :=
  if b = quote then some .double else if b = apostrophe then some .single else none

structure RawValue where
  quote : Option Quote
  text : Bytes
  deriving DecidableEq, Repr

structure RawAttribute where
  key : Bytes
  value : Option RawValue
  /-- Where the key starts in the tag. -/
  offset : Nat
  deriving DecidableEq, Repr

/-- The value after an equals sign and white space, and the rest. A quoted value without its
second quote takes all that is left. -/
def RawValue.read (s : Bytes) : RawValue × Bytes :=
  match s with
  | [] => (⟨none, []⟩, [])
  | c :: cs =>
    match Quote.ofByte? c with
    | some mark =>
      match Bytes.cut? [c] cs with
      | some (text, rest) => (⟨some mark, text⟩, rest)
      | none => (⟨some mark, Bytes.trimSuffix [gt] cs⟩, [])
    | none => (⟨none, (c :: cs).takeWhile Markup.inUnquoted⟩, (c :: cs).dropWhile Markup.inUnquoted)

/-- What follows a key: its value and the rest. -/
def RawAttribute.readValue (s : Bytes) : Option RawValue × Bytes :=
  match Markup.skipSpace s with
  | [] => (none, [])
  | c :: cs =>
    if c = slash then (none, cs)
    else if c = equals then
      let (value, rest) := RawValue.read (Markup.skipSpace cs)
      (some value, rest)
    else (none, c :: cs)

theorem RawValue.length_read_le (s : Bytes) : (RawValue.read s).2.length ≤ s.length := by
  unfold RawValue.read
  split
  · simp
  · rename_i c cs
    split
    · split
      · rename_i h
        have := Bytes.length_cut?_lt (List.cons_ne_nil _ _) h
        simp only [List.length_cons]; omega
      · simp
    · exact Markup.length_dropWhile_le _ _

theorem RawAttribute.length_readValue_le (s : Bytes) :
    (RawAttribute.readValue s).2.length ≤ s.length := by
  have hs : (Markup.skipSpace s).length ≤ s.length := Markup.length_dropWhile_le isTagSpace s
  unfold RawAttribute.readValue
  split
  · simp
  · rename_i c cs heq
    rw [heq, List.length_cons] at hs
    split
    · simp only; omega
    split
    · have := RawValue.length_read_le (Markup.skipSpace cs)
      have : (Markup.skipSpace cs).length ≤ cs.length := Markup.length_dropWhile_le isTagSpace cs
      simp only; omega
    · simp only [List.length_cons]; omega

theorem RawAttribute.length_rest_lt {c : UInt8} {cs : Bytes} (hspace : isTagSpace c = false)
    (hgt : c ≠ gt) :
    (RawAttribute.readValue (Markup.afterKey (c :: cs))).2.length < (c :: cs).length := by
  have hdrop := Markup.length_dropWhile_le Markup.inKey cs
  by_cases hslash : c = slash
  · have hk : Markup.afterKey (c :: cs) = c :: cs := by
      have hne : slash ≠ equals := by decide
      simp [Markup.afterKey, hslash, Markup.inKey, hne]
    have hskip : Markup.skipSpace (c :: cs) = c :: cs := by simp [Markup.skipSpace, hspace]
    rw [hk, readValue, hskip]
    simp [hslash]
  · have hk : Markup.afterKey (c :: cs) = cs.dropWhile Markup.inKey := by
      by_cases heq : c = equals
      · simp [Markup.afterKey, heq]
      · have hin : Markup.inKey c = true := by simp [Markup.inKey, hspace, hslash, hgt, heq]
        simp [Markup.afterKey, heq, hin]
    rw [hk]
    have := RawAttribute.length_readValue_le (cs.dropWhile Markup.inKey)
    simp only [List.length_cons]; omega

/-- The attributes in `s`, the end of a tag of `size` bytes. -/
def RawAttribute.readAll (size : Nat) (s : Bytes) : List RawAttribute :=
  match h : Markup.skipSpace s with
  | [] => []
  | c :: cs =>
    if hgt : c = gt then []
    else
      have := @RawAttribute.length_rest_lt c cs (Markup.isTagSpace_of_skipSpace h) hgt
      have : (c :: cs).length ≤ s.length := h ▸ Markup.length_dropWhile_le isTagSpace s
      { key := Markup.keyOf (c :: cs)
        value := (readValue (Markup.afterKey (c :: cs))).1
        offset := size - (c :: cs).length } ::
      readAll size (readValue (Markup.afterKey (c :: cs))).2
termination_by s.length

/-- The attributes with a key, of those with the same key, in any case, the first. -/
def RawAttribute.distinct (seen : List Bytes) : List RawAttribute → List RawAttribute
  | [] => []
  | a :: as =>
    if a.key.isEmpty || seen.contains (Bytes.lower a.key) then distinct seen as
    else a :: distinct (Bytes.lower a.key :: seen) as

/-- The attributes of the tag `raw`, of which `rest` follows the name. -/
def RawAttribute.ofTag (raw rest : Bytes) : List RawAttribute :=
  distinct [] (readAll raw.length rest)

end DomTemplate
