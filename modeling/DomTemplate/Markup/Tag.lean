import DomTemplate.Markup.RawText

/-! The inside of a tag: its name and its attributes, each a key and a value as
written. Reading fails when the input ends before the tag does. -/

namespace DomTemplate.Markup
open Ascii

def skipSpace (s : Bytes) : Bytes := s.dropWhile isTagSpace

/-- A byte that may continue an attribute key. -/
def inKey (b : UInt8) : Bool := !(isTagSpace b || b == slash || b == gt || b == equals)

/-- What follows the key at the start of `s`. An equals sign that comes first belongs to
the key. -/
def afterKey : Bytes → Bytes
  | [] => []
  | c :: cs => if c = equals then cs.dropWhile inKey else (c :: cs).dropWhile inKey

/-- The key at the start of `s`. -/
def keyOf (s : Bytes) : Bytes := s.take (s.length - (afterKey s).length)

def inUnquoted (b : UInt8) : Bool := !(isTagSpace b || b == gt)

/-- The value written after an equals sign and white space, and the rest. -/
def writtenValue? : Bytes → Option (Bytes × Bytes)
  | [] => none
  | c :: cs =>
    if c = gt then some ([], c :: cs)
    else if c = quote ∨ c = apostrophe then Bytes.cut? [c] cs
    else match (c :: cs).dropWhile inUnquoted with
      | [] => none
      | d :: rest => some ((c :: cs).takeWhile inUnquoted, if d = gt then d :: rest else rest)

/-- The value that follows a key, empty if there is none, and the rest. A slash after
the key ends the attribute. -/
def valueSpan? (s : Bytes) : Option (Bytes × Bytes) :=
  match skipSpace s with
  | [] => none
  | c :: cs =>
    if c = slash then some ([], cs)
    else if c = equals then writtenValue? (skipSpace cs)
    else some ([], c :: cs)

/-- One attribute, key and value, and the rest. -/
def attributeSpan? (s : Bytes) : Option ((Bytes × Bytes) × Bytes) :=
  (valueSpan? (afterKey s)).map fun (value, rest) => ((keyOf s, value), rest)

theorem length_dropWhile_le (p : UInt8 → Bool) (s : Bytes) :
    (s.dropWhile p).length ≤ s.length :=
  (List.dropWhile_sublist p).length_le

theorem isTagSpace_of_skipSpace {s cs : Bytes} {c : UInt8} (h : skipSpace s = c :: cs) :
    isTagSpace c = false := by
  induction s with
  | nil => simp [skipSpace] at h
  | cons b s ih =>
    rw [skipSpace, List.dropWhile_cons] at h
    split at h
    · exact ih h
    · rename_i hb
      rw [List.cons.injEq] at h
      simpa [← h.1] using hb

theorem length_writtenValue?_le {s value rest : Bytes}
    (h : writtenValue? s = some (value, rest)) : rest.length ≤ s.length := by
  unfold writtenValue? at h
  split at h
  · simp at h
  · rename_i c cs
    split at h
    · simp only [Option.some.injEq, Prod.mk.injEq] at h
      exact h.2 ▸ Nat.le_refl _
    split at h
    · have := Bytes.length_cut?_lt (List.cons_ne_nil _ _) h
      simp only [List.length_cons]; omega
    · have hle := length_dropWhile_le inUnquoted (c :: cs)
      split at h
      · simp at h
      · rename_i d after heq
        rw [heq] at hle
        simp only [Option.some.injEq, Prod.mk.injEq] at h
        rw [← h.2]
        split <;> simp only [List.length_cons] at * <;> omega

theorem length_valueSpan?_le {s value rest : Bytes} (h : valueSpan? s = some (value, rest)) :
    rest.length ≤ s.length := by
  have hs : (skipSpace s).length ≤ s.length := length_dropWhile_le isTagSpace s
  unfold valueSpan? at h
  split at h
  · simp at h
  · rename_i c cs heq
    rw [heq] at hs
    simp only [List.length_cons] at hs
    split at h
    · simp only [Option.some.injEq, Prod.mk.injEq] at h
      rw [← h.2]; omega
    split at h
    · have hw := length_writtenValue?_le h
      have : (skipSpace cs).length ≤ cs.length := length_dropWhile_le isTagSpace cs
      omega
    · simp only [Option.some.injEq, Prod.mk.injEq] at h
      rw [← h.2]; simp only [List.length_cons]; omega

/-- Past white space and short of `>`, reading an attribute consumes something. -/
theorem length_attributeSpan?_lt {c : UInt8} {cs rest : Bytes} {attr : Bytes × Bytes}
    (hspace : isTagSpace c = false) (hgt : c ≠ gt)
    (h : attributeSpan? (c :: cs) = some (attr, rest)) : rest.length < (c :: cs).length := by
  simp only [attributeSpan?, Option.map_eq_some_iff] at h
  obtain ⟨⟨value, r⟩, hv, he⟩ := h
  simp only [Prod.mk.injEq] at he
  rw [← he.2]
  have hdrop := length_dropWhile_le inKey cs
  by_cases hslash : c = slash
  · have hk : afterKey (c :: cs) = c :: cs := by
      have hne : slash ≠ equals := by decide
      simp [afterKey, hslash, inKey, hne]
    have hskip : skipSpace (c :: cs) = c :: cs := by simp [skipSpace, hspace]
    rw [hk, valueSpan?, hskip] at hv
    simp only [hslash, if_true, Option.some.injEq, Prod.mk.injEq] at hv
    rw [← hv.2]; simp
  · have hk : afterKey (c :: cs) = cs.dropWhile inKey := by
      by_cases heq : c = equals
      · simp [afterKey, heq]
      · have hin : inKey c = true := by simp [inKey, hspace, hslash, hgt, heq]
        simp [afterKey, heq, hin]
    rw [hk] at hv
    have := length_valueSpan?_le hv
    simp only [List.length_cons]; omega

/-- The end of a tag: its attributes, and whether a solidus of its own stands right
before the `>`; one that ends an unquoted value does not count. -/
structure TagEnd where
  attributes : List (Bytes × Bytes)
  solidus : Bool
  deriving DecidableEq, Repr

/-- The attribute at the start of `s` is ended by a slash. -/
def endsInSlash (s : Bytes) : Bool := (skipSpace (afterKey s)).head? == some slash

def TagEnd.cons (attr : Bytes × Bytes) (tail : TagEnd) : TagEnd :=
  if attr.1.isEmpty then tail else { tail with attributes := attr :: tail.attributes }

/-- The attributes up to the `>` that ends the tag, without those whose key is empty,
and what follows it. `afterSlash` says that a slash of its own stands before `s`. -/
def tagEndSpan? (afterSlash : Bool) (s : Bytes) : Option (TagEnd × Bytes) :=
  match h : skipSpace s with
  | [] => none
  | c :: cs =>
    if hgt : c = gt then some (⟨[], afterSlash && s.head? == some gt⟩, cs)
    else match ha : attributeSpan? (c :: cs) with
      | none => none
      | some (attr, rest) =>
        have := length_attributeSpan?_lt (isTagSpace_of_skipSpace h) hgt ha
        have : (c :: cs).length ≤ s.length := h ▸ length_dropWhile_le isTagSpace s
        (tagEndSpan? (endsInSlash (c :: cs)) rest).map fun (tail, rest) => (tail.cons attr, rest)
termination_by s.length

theorem length_tagEndSpan?_lt {afterSlash : Bool} {s rest : Bytes} {tail : TagEnd}
    (h : tagEndSpan? afterSlash s = some (tail, rest)) : rest.length < s.length := by
  fun_induction tagEndSpan? afterSlash s generalizing tail rest with
  | case1 => simp at h
  | case2 afterSlash s cs hs =>
    have : (skipSpace s).length ≤ s.length := length_dropWhile_le isTagSpace s
    rw [hs, List.length_cons] at this
    simp only [Option.some.injEq, Prod.mk.injEq] at h
    rw [← h.2]; omega
  | case3 => simp at h
  | case4 afterSlash s c cs hs hgt attr after ha hlt hle ih =>
    simp only [Option.map_eq_some_iff] at h
    obtain ⟨⟨t, r⟩, hr, he⟩ := h
    simp only [Prod.mk.injEq] at he
    have := ih hr
    rw [← he.2]; omega

/-- A tag name, its attributes and whether a solidus closes it. -/
structure TagParts extends TagEnd where
  name : Bytes
  deriving DecidableEq, Repr

/-- Read the tag whose name starts `s`. -/
def tagSpan? (s : Bytes) : Option (TagParts × Bytes) :=
  (tagEndSpan? false (s.dropWhile (!endsName ·))).map fun (tail, rest) =>
    ({ tail with name := s.takeWhile (!endsName ·) }, rest)

theorem length_tagSpan?_lt {s rest : Bytes} {parts : TagParts}
    (h : tagSpan? s = some (parts, rest)) : rest.length < s.length := by
  simp only [tagSpan?, Option.map_eq_some_iff] at h
  obtain ⟨⟨tail, r⟩, hr, he⟩ := h
  simp only [Prod.mk.injEq] at he
  have := length_tagEndSpan?_lt hr
  have := length_dropWhile_le (!endsName ·) s
  rw [← he.2]; omega

end DomTemplate.Markup
