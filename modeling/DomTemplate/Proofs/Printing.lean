import DomTemplate.Template.Parser
import DomTemplate.Proofs.Marks
import DomTemplate.Proofs.Occurrence
import Mathlib.Data.Bool.AllAny
import Mathlib.Data.List.Chain
import Mathlib.Tactic.MkIffOfInductiveProp

/-! Documents in print. Tags are printed literally, code stands between braces, and in literal
text whatever could be taken for something else is a character reference. A canonical document
is one that has a print: its names are plain, its literals do not touch, and its code ends at
its own brace. The print holds no reserved character, and masking finds the code in it. -/

namespace DomTemplate
open Ascii Bytes

/-- What is written as a reference in literal text. -/
def printRules : List Rule :=
  [.ofStrings "&" "&#38;", .ofStrings "<" "&#60;", .ofStrings ">" "&#62;", .ofStrings "\"" "&#34;",
   .ofStrings "\x7b" "&#123;", .ofStrings "\\" "&#92;"]

/-- A unit of a print: a byte or a code block as a whole. -/
inductive Sign where
  | byte (b : UInt8)
  | code (block : Code)

namespace Sign

def written : Sign → Bytes
  | byte b => [b]
  | code block => (Part.code block).source

def ofBytes (s : Bytes) : List Sign := s.map byte

end Sign

def Part.signs : Part → List Sign
  | raw value => Sign.ofBytes (Rule.applyAll printRules value)
  | code block => [.code block]
  | absent | misplaced _ => []

def Attribute.signs (a : Attribute) : List Sign :=
  Sign.ofBytes (space :: a.source) ++
    match a.value with
    | none => []
    | some v => Sign.ofBytes [equals, quote] ++ v.parts.flatMap Part.signs ++ Sign.ofBytes [quote]

/-- The attributes that are there. -/
def Tag.attributes (t : Tag) : List Attribute := (t.attrs.getD []).filterMap id

/-- What follows the name of a tag. -/
def Tag.restSigns (t : Tag) : List Sign :=
  t.attributes.flatMap Attribute.signs ++ Sign.ofBytes (if t.solidus then [slash, gt] else [gt])

def Tag.signs (t : Tag) : List Sign :=
  Sign.ofBytes (lt :: (if t.closing then [slash] else []) ++ t.source) ++ t.restSigns

def Node.signs : Node → List Sign
  | tag t => t.signs
  | text parts => parts.flatMap Part.signs
  | _ => []

def Document.signs (doc : Document) : List Sign := doc.children.flatMap Node.signs

/-- The document as a template between braces. -/
def Document.print (doc : Document) : Bytes := doc.signs.flatMap Sign.written

def isNameByte (b : UInt8) : Bool := isLower b || isDigit b || b == dash

/-- A small letter, then small letters, digits and dashes. -/
def isPlainName : Bytes → Bool
  | [] => false
  | c :: cs => isLower c && cs.all isNameByte

def Unreserved (s : Bytes) : Prop := ∀ sub ∈ reserved, Avoids s sub

@[mk_iff]
structure Code.IsCanonical (c : Code) : Prop where
  kind : (c.kind = .statement ∧ c.source.head? ≠ some equals) ∨ c.kind = .expression
  trimmed : c.source.trim = c.source
  nonempty : c.source ≠ []
  unreserved : Unreserved c.source
  /-- The brace after the code is the one that ends it. -/
  balanced : braceSpan? .code 0 (c.source ++ [rbrace]) = some (c.source, [])

def Part.IsCanonical : Part → Prop
  | raw value => value ≠ [] ∧ cr ∉ value ∧ nul ∉ value ∧ Unreserved value
  | code block => block.IsCanonical
  | absent | misplaced _ => False

def Part.isRaw : Part → Bool
  | raw _ => true
  | _ => false

@[mk_iff]
structure CanonicalParts (parts : List Part) : Prop where
  each : ∀ p ∈ parts, p.IsCanonical
  apart : parts.IsChain fun p q => ¬(p.isRaw = true ∧ q.isRaw = true)

/-- Canonical parts as a grammar: after a literal comes code, if anything. -/
inductive Interleaved : List Part → Prop where
  | nil : Interleaved []
  | code {c : Code} {parts : List Part} (canonical : c.IsCanonical) (rest : Interleaved parts) :
      Interleaved (.code c :: parts)
  | last {value : Bytes} (canonical : (Part.raw value).IsCanonical) : Interleaved [.raw value]
  | literal {value : Bytes} {c : Code} {parts : List Part}
      (canonical : (Part.raw value).IsCanonical) (coded : c.IsCanonical)
      (rest : Interleaved parts) : Interleaved (.raw value :: .code c :: parts)

theorem CanonicalParts.interleaved {parts : List Part} (h : CanonicalParts parts) :
    Interleaved parts := by
  obtain ⟨each, apart⟩ := h
  induction size : parts.length using Nat.strongRecOn generalizing parts with
  | ind n ih =>
    match parts with
    | [] => exact .nil
    | .code c :: rest =>
      rw [List.forall_mem_cons] at each
      exact .code each.1 (ih rest.length (by simp [← size]) each.2 apart.tail rfl)
    | [.raw value] => exact .last (each _ List.mem_cons_self)
    | .raw value :: .code c :: rest =>
      rw [List.forall_mem_cons, List.forall_mem_cons] at each
      exact .literal each.1 each.2.1
        (ih rest.length (by simp only [← size, List.length_cons]; omega) each.2.2 apart.tail.tail rfl)
    | .raw value :: .raw next :: rest =>
      exact absurd ⟨rfl, rfl⟩ (List.isChain_cons_cons.mp apart).1
    | .raw value :: .absent :: rest | .raw value :: .misplaced kind :: rest =>
      exact (each _ (List.mem_cons_of_mem _ List.mem_cons_self)).elim
    | .absent :: rest | .misplaced kind :: rest => exact (each _ List.mem_cons_self).elim

@[mk_iff]
structure Attribute.IsCanonical (a : Attribute) : Prop where
  static : a.name = some [.raw a.source]
  name : isPlainName a.source = true
  value : ∀ v ∈ a.value, v.quote = some .double ∧ CanonicalParts v.parts

@[mk_iff]
structure Tag.IsCanonical (t : Tag) : Prop where
  static : t.name = some [.raw t.source]
  name : isPlainName t.source = true
  ordinary : Markup.RawElement.ofName? t.source = none
  listed : t.attrs = if t.attributes.isEmpty then none else some (t.attributes.map some)
  each : ∀ a ∈ t.attributes, a.IsCanonical
  distinct : (t.attributes.map Attribute.source).Nodup
  closed : t.closing = true → t.attributes = [] ∧ t.solidus = false

def Node.IsCanonical : Node → Prop
  | tag t => t.IsCanonical
  | text parts => parts ≠ [] ∧ CanonicalParts parts
  | _ => False

def Node.isText : Node → Bool
  | text _ => true
  | _ => false

@[mk_iff]
structure CanonicalNodes (ns : List Node) : Prop where
  each : ∀ n ∈ ns, n.IsCanonical
  apart : ns.IsChain fun n n' => ¬(n.isText = true ∧ n'.isText = true)

/-- The document is the one reading of its print. -/
def Document.IsCanonical (doc : Document) : Prop := CanonicalNodes doc.children

theorem CanonicalNodes.tail {n : Node} {ns : List Node} (h : CanonicalNodes (n :: ns)) :
    CanonicalNodes ns :=
  ⟨fun n mem => h.each n (List.mem_cons_of_mem _ mem), h.apart.tail⟩

/-- A text run is followed by a tag, if anything. -/
theorem CanonicalNodes.after_text {parts : List Part} {ns : List Node}
    (h : CanonicalNodes (.text parts :: ns)) :
    ns = [] ∨ ∃ t rest, ns = .tag t :: rest ∧ t.IsCanonical := by
  cases ns with
  | nil => exact .inl rfl
  | cons n rest =>
    have canonical := h.tail.each n List.mem_cons_self
    cases n with
    | tag t => exact .inr ⟨t, rest, rfl, canonical⟩
    | text next => exact absurd ⟨rfl, rfl⟩ (List.isChain_cons_cons.mp h.apart).1
    | absent | code | raw | comment | doctype | misplaced => exact canonical.elim

instance (s : Bytes) : Decidable (Unreserved s) :=
  inferInstanceAs (Decidable (∀ sub ∈ reserved, Avoids s sub))

instance (c : Code) : Decidable c.IsCanonical := decidable_of_iff' _ (Code.isCanonical_iff c)

instance : DecidablePred Part.IsCanonical
  | .raw value =>
    inferInstanceAs (Decidable (value ≠ [] ∧ cr ∉ value ∧ nul ∉ value ∧ Unreserved value))
  | .code c => inferInstanceAs (Decidable c.IsCanonical)
  | .absent | .misplaced _ => inferInstanceAs (Decidable False)

instance (parts : List Part) : Decidable (CanonicalParts parts) :=
  decidable_of_iff' _ (canonicalParts_iff parts)

instance (a : Attribute) : Decidable a.IsCanonical :=
  decidable_of_iff' _ (Attribute.isCanonical_iff a)

instance (t : Tag) : Decidable t.IsCanonical := decidable_of_iff' _ (Tag.isCanonical_iff t)

instance : DecidablePred Node.IsCanonical
  | .tag t => inferInstanceAs (Decidable t.IsCanonical)
  | .text parts => inferInstanceAs (Decidable (parts ≠ [] ∧ CanonicalParts parts))
  | .absent | .code _ | .raw _ | .comment .. | .doctype .. | .misplaced _ =>
    inferInstanceAs (Decidable False)

instance (ns : List Node) : Decidable (CanonicalNodes ns) :=
  decidable_of_iff' _ (canonicalNodes_iff ns)

instance (doc : Document) : Decidable doc.IsCanonical :=
  inferInstanceAs (Decidable (CanonicalNodes doc.children))

theorem replaced_printRules (s : Bytes) : Rule.Replaced printRules s (Rule.applyAll printRules s) :=
  Rule.replaced_applyAll (by decide) s

/-- What has to be a reference does not stand in printed literal text. -/
theorem not_mem_printed {b : UInt8} (escaped : b ∈ [lt, gt, quote, lbrace, backslash]) (s : Bytes) :
    b ∉ Rule.applyAll printRules s := by
  refine (replaced_printRules s).not_mem ?_ ?_ <;> revert b <;> decide +kernel

theorem isNameByte_spec (b : UInt8) : isNameByte b = true →
    b < 0x80 ∧ Ascii.lower b = b ∧ Markup.endsName b = false ∧ Markup.inKey b = true ∧
      b ∉ [lt, lbrace, backslash, slash] := by
  revert b
  exact forall_byte (by decide +kernel)

theorem isNameByte_of_isPlainName {name : Bytes} (h : isPlainName name = true) :
    ∀ b ∈ name, isNameByte b = true := by
  cases name with
  | nil => simp
  | cons c cs =>
    simp only [isPlainName, Bool.and_eq_true, List.all_eq_true] at h
    simp only [List.forall_mem_cons]
    exact ⟨by simp [isNameByte, h.1], h.2⟩

theorem exists_of_isPlainName {name : Bytes} (h : isPlainName name = true) :
    ∃ c cs, name = c :: cs ∧ isLower c = true := by
  cases name with
  | nil => cases h
  | cons c cs =>
    simp only [isPlainName, Bool.and_eq_true] at h
    exact ⟨c, cs, rfl, h.1⟩

theorem lower_of_isPlainName {name : Bytes} (h : isPlainName name = true) :
    Bytes.lower name = name := by
  have each : ∀ b ∈ name, Ascii.lower b = id b := fun b mem =>
    (isNameByte_spec b (isNameByte_of_isPlainName h b mem)).2.1
  rw [Bytes.lower, List.map_congr_left each, List.map_id]

theorem takeWhile_append_stop {p : UInt8 → Bool} {s t : Bytes} {b : UInt8}
    (inside : ∀ c ∈ s, p c = true) (stop : p b = false) :
    (s ++ b :: t).takeWhile p = s := by
  rw [List.takeWhile_append_of_pos inside, List.takeWhile_cons_of_neg (by simp [stop]),
    List.append_nil]

theorem dropWhile_append_stop {p : UInt8 → Bool} {s t : Bytes} {b : UInt8}
    (inside : ∀ c ∈ s, p c = true) (stop : p b = false) :
    (s ++ b :: t).dropWhile p = b :: t := by
  rw [List.dropWhile_append_of_pos inside, List.dropWhile_cons_of_neg (by simp [stop])]

theorem Markup.endsName_lower (b : UInt8) : endsName (Ascii.lower b) = endsName b :=
  forall_byte (p := fun b => endsName (Ascii.lower b) = endsName b) (by decide +kernel) b

theorem Markup.startsName_spec {name s : Bytes} (h : startsName name s = true) :
    ∃ t b rest, s = t ++ b :: rest ∧ Bytes.lower t = Bytes.lower name ∧ endsName b = true := by
  rw [startsName, Bool.and_eq_true] at h
  obtain ⟨front, after⟩ := h
  split at after
  · rename_i b rest found
    refine ⟨s.take name.length, b, rest, by rw [← found, List.take_append_drop], ?_, after⟩
    have whole := List.prefix_iff_eq_take.mp (List.isPrefixOf_iff_prefix.mp front)
    rw [whole]
    simp [Bytes.lower]
  · cases after

theorem Markup.RawElement.name_spec (e : RawElement) :
    e ∈ all ∧ Bytes.lower e.name = e.name ∧ ∀ b ∈ e.name, endsName b = false := by
  refine ⟨?_, ?_, List.all_iff_forall_prop.mp ?_⟩ <;> cases e <;> decide +kernel

/-- A text starts with the name of an element if its own first name is that one. -/
theorem Markup.RawElement.startsName_whole (e : RawElement) {name : Bytes} {b : UInt8}
    (whole : ∀ c ∈ name, endsName c = false) (ends : endsName b = true) (s : Bytes) :
    startsName e.name (name ++ b :: s) = true ↔ Bytes.lower name = e.name := by
  obtain ⟨-, lower, letters⟩ := e.name_spec
  constructor
  · intro starts
    obtain ⟨t, c, rest, split, same, ended⟩ := startsName_spec starts
    rw [lower] at same
    have inner : ∀ c ∈ t, endsName c = false := by
      intro c mem
      rw [← endsName_lower]
      exact letters _ (same ▸ List.mem_map_of_mem mem)
    have first := congrArg (List.takeWhile (!endsName ·)) split
    rw [takeWhile_append_stop (by simpa using whole) (by simpa using ends),
      takeWhile_append_stop (by simpa using inner) (by simpa using ended)] at first
    rw [first, same]
  · intro same
    have long : e.name.length = name.length := by rw [← same, Bytes.lower, List.length_map]
    rw [startsName, Bool.and_eq_true]
    refine ⟨List.isPrefixOf_iff_prefix.mpr ?_, ?_⟩
    · rw [lower, ← same]
      exact ⟨Bytes.lower (b :: s), by simp [Bytes.lower]⟩
    · rw [long, List.drop_left]
      exact ends

/-- What stands between the braces of a block. -/
def Code.inner (c : Code) : Bytes := if c.kind = .expression then equals :: c.source else c.source

theorem Part.source_code (c : Code) : (Part.code c).source = lbrace :: c.inner ++ [rbrace] := by
  obtain ⟨kind, source, pos⟩ := c
  cases kind <;> rfl

namespace Code.IsCanonical
variable {c : Code}

theorem braceCode_inner (h : c.IsCanonical) : braceCode c.inner = (c.kind, c.source) := by
  obtain ⟨kind, source, pos⟩ := c
  rcases h.kind with ⟨rfl, other⟩ | rfl
  · obtain ⟨b, bs, rfl⟩ := List.exists_cons_of_ne_nil h.nonempty
    have differs : b ≠ equals := by simpa using other
    simp [inner, braceCode, differs]
  · rfl

theorem encloses (h : c.IsCanonical) : Delimiters.brace.Encloses c.inner (Part.code c).source := by
  refine ⟨Part.source_code c, fun more => ?_⟩
  have ends := (braceSpan?_spec h.balanced).2 more
  rw [inner]
  split
  · rw [List.cons_append, braceSpan?, if_neg (by decide)]
    exact congrArg (Option.map _) ends
  · exact ends

end Code.IsCanonical

namespace Sign

@[simp] theorem written_ofBytes (s : Bytes) : (ofBytes s).flatMap written = s := by
  simp [ofBytes, List.flatMap_map, written]

/-- The pieces of a print, its blocks being numbered from `k` on. -/
def numbered (k : Nat) : List Sign → Masked
  | [] => []
  | byte b :: rest => .byte b :: numbered k rest
  | code c :: rest =>
    .block ⟨k, c.kind, c.source, (Part.code c).source, false⟩ :: numbered (k + 1) rest

/-- Masking finds the pieces of the signs wherever no tag has just been opened. -/
def Cuts (signs : List Sign) : Prop :=
  ∀ state : MaskState, endsInTagOpen state.before = false →
    Cut .brace state .markup (signs.flatMap written) (numbered state.number signs)

theorem endsInTagOpen_cons {b : UInt8} {before : Bytes} (other : b ≠ lt)
    (calm : endsInTagOpen before = false) : endsInTagOpen (b :: before) = false := by
  rcases before with _ | ⟨c, _ | ⟨d, before⟩⟩ <;> simp_all [endsInTagOpen]

theorem endsInTagOpen_append {s before : Bytes} (other : lt ∉ s)
    (calm : endsInTagOpen before = false) : endsInTagOpen (s.reverse ++ before) = false := by
  induction s generalizing before with
  | nil => exact calm
  | cons b s ih =>
    rw [List.mem_cons, not_or] at other
    rw [List.reverse_cons, List.append_assoc]
    exact ih other.2 (endsInTagOpen_cons (Ne.symm other.1) calm)

theorem starts_plain {b : UInt8} (plain : b ∉ [lbrace, backslash]) (s : Bytes) :
    ¬Delimiters.brace.Starts .markup b s := by
  rw [List.mem_cons, List.mem_singleton, not_or] at plain
  rintro (escape | block)
  · exact plain.2 escape.1
  · exact plain.1 block.1

theorem next_plain {b : UInt8} (plain : b ≠ lt) (s : Bytes) :
    BraceContext.next b s .markup = .markup := by
  rw [BraceContext.next, if_neg plain]

variable {signs : List Sign}

theorem cuts_nil : Cuts [] := fun _ _ => .nil

theorem Cuts.byte {b : UInt8} (h : Cuts signs) (plain : b ∉ [lt, lbrace, backslash]) :
    Cuts (.byte b :: signs) := by
  intro state calm
  rw [List.mem_cons, not_or] at plain
  refine .byte (starts_plain plain.2 _) ?_
  rw [next_plain plain.1]
  exact h (state.push (.byte b)) (endsInTagOpen_cons plain.1 calm)

theorem Cuts.bytes {s : Bytes} (h : Cuts signs) (plain : ∀ b ∈ s, b ∉ [lt, lbrace, backslash]) :
    Cuts (ofBytes s ++ signs) := by
  induction s with
  | nil => exact h
  | cons b s ih =>
    rw [List.forall_mem_cons] at plain
    exact (ih plain.2).byte plain.1

theorem Cuts.code {c : Code} (h : Cuts signs) (canonical : c.IsCanonical) :
    Cuts (.code c :: signs) := by
  intro state calm
  have read := canonical.braceCode_inner
  have block : state.block .brace c.inner (Sign.code c).written (signs.flatMap written) =
      ⟨state.number, c.kind, c.source, (Part.code c).source, false⟩ := by
    simp [MaskState.block, written, Delimiters.codeOf, read, canonical.trimmed, calm]
  have quiet : lt ∉ mark state.number := by
    intro mem
    exact absurd (isMarkByte_mark _ _ mem) (by decide)
  have filled : (Delimiters.brace.codeOf c.inner).2.trim ≠ [] := by
    simpa [Delimiters.codeOf, read, canonical.trimmed] using canonical.nonempty
  rw [List.flatMap_cons, numbered, ← block]
  refine .block canonical.encloses (.inl filled) (fun _ inside => by cases inside) ?_
  rw [block]
  exact h (state.push _) (endsInTagOpen_append quiet calm)

/-- The text of parts is cut as it stands. -/
theorem Cuts.parts {parts : List Part} (h : Cuts signs) (canonical : ∀ p ∈ parts, p.IsCanonical) :
    Cuts (parts.flatMap Part.signs ++ signs) := by
  induction parts with
  | nil => exact h
  | cons p parts ih =>
    rw [List.forall_mem_cons] at canonical
    have rest := ih canonical.2
    rw [List.flatMap_cons, List.append_assoc]
    cases p with
    | raw value =>
      refine rest.bytes fun b mem escaped => not_mem_printed (b := b) ?_ value mem
      revert escaped
      simp only [List.mem_cons, List.not_mem_nil]
      tauto
    | code c => exact rest.code canonical.1
    | absent | misplaced kind => exact canonical.1.elim

theorem Cuts.attribute {a : Attribute} (h : Cuts signs) (canonical : a.IsCanonical) :
    Cuts (a.signs ++ signs) := by
  have name : ∀ b ∈ space :: a.source, b ∉ [lt, lbrace, backslash] := by
    rw [List.forall_mem_cons]
    refine ⟨by decide, fun b mem escaped => ?_⟩
    have plain := (isNameByte_spec b (isNameByte_of_isPlainName canonical.name b mem)).2.2.2.2
    simp only [List.mem_cons, List.not_mem_nil] at escaped plain
    tauto
  rw [Attribute.signs]
  split
  · rw [List.append_nil]
    exact h.bytes name
  · rename_i v valued
    simp only [List.append_assoc]
    refine Cuts.bytes (.bytes (.parts (.bytes h ?_) (canonical.value v valued).2.each) ?_) name
    · exact List.all_iff_forall_prop.mp (by decide)
    · exact List.all_iff_forall_prop.mp (by decide)

/-- After `<` or `</` comes the first letter of a name. -/
theorem Cuts.letter {b : UInt8} (h : Cuts signs) (letter : isNameByte b = true)
    (state : MaskState) : Cut .brace state .markup ((Sign.byte b :: signs).flatMap written)
      (numbered state.number (.byte b :: signs)) := by
  have plain := (isNameByte_spec b letter).2.2.2.2
  simp only [List.mem_cons, List.not_mem_nil, or_false, not_or] at plain
  obtain ⟨noTag, noBrace, noBackslash, noSlash⟩ := plain
  refine .byte (starts_plain (by simp [noBrace, noBackslash]) _) ?_
  rw [next_plain noTag]
  refine h (state.push (.byte b)) ?_
  cases before : state.before <;>
    simp [MaskState.push, Piece.shown, before, endsInTagOpen, noTag, noSlash]

/-- A `<` that is followed by the name of an ordinary element opens no script or style. -/
theorem opened?_ordinary {name : Bytes} {b : UInt8} (whole : ∀ c ∈ name, Markup.endsName c = false)
    (ends : Markup.endsName b = true) (ordinary : Markup.RawElement.ofName? name = none)
    (s : Bytes) : BraceContext.opened? (name ++ b :: s) = none := by
  refine List.find?_eq_none.mpr fun e mem starts => ?_
  rw [Markup.RawElement.ofName?, List.find?_eq_none] at ordinary
  refine ordinary e e.name_spec.1 ?_
  rw [beq_iff_eq]
  exact ((e.startsName_whole whole ends s).mp starts).symm

theorem Cuts.attributes {as : List Attribute} (h : Cuts signs)
    (canonical : ∀ a ∈ as, a.IsCanonical) : Cuts (as.flatMap Attribute.signs ++ signs) := by
  induction as with
  | nil => exact h
  | cons a as ih =>
    rw [List.forall_mem_cons] at canonical
    rw [List.flatMap_cons, List.append_assoc]
    exact (ih canonical.2).attribute canonical.1

/-- The name of a printed tag ends where the rest begins. -/
theorem written_restSigns (t : Tag) (signs : List Sign) :
    ∃ b s, (t.restSigns ++ signs).flatMap written = b :: s ∧ Markup.endsName b = true := by
  rw [Tag.restSigns]
  cases t.attributes with
  | nil => cases t.solidus <;> exact ⟨_, _, rfl, rfl⟩
  | cons a as => exact ⟨space, _, rfl, rfl⟩

theorem Cuts.restSigns {t : Tag} (h : Cuts signs) (canonical : t.IsCanonical) :
    Cuts (t.restSigns ++ signs) := by
  rw [Tag.restSigns, List.append_assoc]
  refine Cuts.attributes (h.bytes ?_) canonical.each
  cases t.solidus <;> exact List.all_iff_forall_prop.mp (by decide)

/-- A `<` is cut as it stands before what opens no script or style. -/
theorem Cuts.opening (unopened : BraceContext.opened? (signs.flatMap written) = none)
    (after : ∀ state : MaskState,
      Cut .brace state .markup (signs.flatMap written) (numbered state.number signs)) :
    Cuts (.byte lt :: signs) := by
  intro state calm
  have context : BraceContext.next lt (signs.flatMap written) .markup = .markup := by
    rw [BraceContext.next, if_pos rfl, unopened]
    rfl
  change Cut .brace state .markup (lt :: signs.flatMap written) _
  refine .byte (starts_plain (by decide) _) ?_
  rw [context]
  exact after (state.push (.byte lt))

theorem Cuts.tag {t : Tag} (h : Cuts signs) (canonical : t.IsCanonical) :
    Cuts (t.signs ++ signs) := by
  have letters := isNameByte_of_isPlainName canonical.name
  have plain : ∀ b ∈ t.source, b ∉ [lt, lbrace, backslash] := by
    intro b mem escaped
    have other := (isNameByte_spec b (letters b mem)).2.2.2.2
    simp only [List.mem_cons, List.not_mem_nil] at escaped other
    tauto
  have body (state : MaskState) : Cut .brace state .markup
      ((ofBytes t.source ++ (t.restSigns ++ signs)).flatMap written)
      (numbered state.number (ofBytes t.source ++ (t.restSigns ++ signs))) := by
    obtain ⟨c, cs, name, -⟩ := exists_of_isPlainName canonical.name
    rw [name, List.forall_mem_cons] at letters plain
    rw [name]
    exact ((h.restSigns canonical).bytes plain.2).letter letters.1 state
  rw [Tag.signs, List.append_assoc]
  cases t.closing with
  | false =>
    obtain ⟨b, s, tail, ends⟩ := written_restSigns t signs
    change Cuts (.byte lt :: (ofBytes t.source ++ (t.restSigns ++ signs)))
    refine Cuts.opening ?_ body
    rw [List.flatMap_append, written_ofBytes, tail]
    exact opened?_ordinary (fun b mem => (isNameByte_spec b (letters b mem)).2.2.1) ends
      canonical.ordinary s
  | true =>
    -- with the slash in front no name is that of a raw element
    have unopened (s : Bytes) : BraceContext.opened? ([] ++ slash :: s) = none :=
      opened?_ordinary (by simp) rfl rfl s
    refine Cuts.opening (unopened _) fun state => ?_
    refine .byte (starts_plain (by decide) _) ?_
    exact body (state.push (.byte slash))

theorem Cuts.node {n : Node} (h : Cuts signs) (canonical : n.IsCanonical) :
    Cuts (n.signs ++ signs) := by
  cases n with
  | tag t => exact h.tag canonical
  | text parts => exact h.parts canonical.2.each
  | absent | code | raw | comment | doctype | misplaced => exact canonical.elim

theorem cuts_nodes {ns : List Node} (canonical : ∀ n ∈ ns, n.IsCanonical) :
    Cuts (ns.flatMap Node.signs) := by
  induction ns with
  | nil => exact cuts_nil
  | cons n ns ih =>
    rw [List.forall_mem_cons] at canonical
    exact (ih canonical.2).node canonical.1

end Sign

theorem Document.IsCanonical.masked {doc : Document} (h : doc.IsCanonical) :
    Masked.ofSource .brace doc.print = .ok (Sign.numbered 0 doc.signs) :=
  Masked.ofSource_ok.mpr (Sign.cuts_nodes h.each {} rfl)

section Reserved
variable {sub : Bytes} {signs : List Sign}

theorem reserved_ne_nil : ∀ sub ∈ reserved, sub ≠ [] := by decide

theorem low_not_mem (mem : sub ∈ reserved) {b : UInt8} (low : b < 0x80) : b ∉ sub := by
  intro inside
  have high : ∀ sub ∈ reserved, ∀ b ∈ sub, ¬b < 0x80 := by decide +kernel
  exact high sub mem b inside low

theorem sealed_low (mem : sub ∈ reserved) {s : Bytes} (low : ∀ b ∈ s, b < 0x80) : Sealed s sub := by
  have first : ∀ sub ∈ reserved, sub.head? = some 0xEE := by decide
  exact sealed_of_not_mem (first sub mem) fun inside => absurd (low _ inside) (by decide)

theorem avoids_printed (mem : sub ∈ reserved) {value : Bytes} (avoids : Avoids value sub) :
    Avoids (Rule.applyAll printRules value) sub := by
  have blunt : ∀ sub ∈ reserved, ∀ rule ∈ printRules, rule.Blunts sub := by decide +kernel
  exact (replaced_printRules value).avoids (blunt sub mem) (reserved_ne_nil sub mem) (.inr avoids)

theorem sealed_code (mem : sub ∈ reserved) {c : Code} (canonical : c.IsCanonical) :
    Sealed (Part.code c).source sub := by
  have nonempty := reserved_ne_nil sub mem
  have closed := (canonical.unreserved sub mem).concat (low_not_mem mem (by decide : rbrace < 0x80))
    nonempty
  have opened {s : Bytes} (low : ∀ b ∈ s, b < 0x80) : Sealed (s ++ (c.source ++ [rbrace])) sub :=
    (sealed_low mem low).append closed nonempty
  rw [Part.source_code, Code.inner]
  split
  · exact opened (s := [lbrace, equals]) (List.all_iff_forall_prop.mp (by decide))
  · exact opened (s := [lbrace]) (List.all_iff_forall_prop.mp (by decide))

/-- Parts avoid the reserved characters up to a byte that is in none of them. -/
theorem avoids_parts (mem : sub ∈ reserved) {parts : List Part} (canonical : Interleaved parts)
    (rest : Avoids (signs.flatMap Sign.written) sub)
    (apart : ∀ b, (signs.flatMap Sign.written).head? = some b → b ∉ sub) :
    Avoids ((parts.flatMap Part.signs ++ signs).flatMap Sign.written) sub := by
  have nonempty := reserved_ne_nil sub mem
  have code {c : Code} {parts : List Part} (canonical : c.IsCanonical)
      (later : Avoids ((parts.flatMap Part.signs ++ signs).flatMap Sign.written) sub) :
      Avoids ((Sign.code c :: (parts.flatMap Part.signs ++ signs)).flatMap Sign.written) sub :=
    (sealed_code mem canonical).append_avoids later nonempty
  induction canonical with
  | nil => exact rest
  | code canonical _ later => exact code canonical later
  | @last value canonical =>
    simp only [List.flatMap_cons, List.flatMap_nil, List.append_nil, List.flatMap_append,
      Part.signs, Sign.written_ofBytes]
    exact (avoids_printed mem (canonical.2.2.2 sub mem)).append rest nonempty apart
  | @literal value c parts canonical coded _ later =>
    rw [List.flatMap_cons, List.append_assoc, List.flatMap_append, Part.signs, Sign.written_ofBytes]
    refine (avoids_printed mem (canonical.2.2.2 sub mem)).append (code coded later) nonempty ?_
    intro b first
    simp only [List.flatMap_cons, Part.signs, List.cons_append, Sign.written, Part.source_code,
      List.head?_cons, Option.some.injEq] at first
    exact low_not_mem mem (first ▸ by decide)

theorem low_of_isPlainName {name : Bytes} (h : isPlainName name = true) : ∀ b ∈ name, b < 0x80 :=
  fun b mem => (isNameByte_spec b (isNameByte_of_isPlainName h b mem)).1

theorem avoids_bytes (mem : sub ∈ reserved) {s : Bytes} (low : ∀ b ∈ s, b < 0x80)
    (rest : Avoids (signs.flatMap Sign.written) sub) :
    Avoids ((Sign.ofBytes s ++ signs).flatMap Sign.written) sub := by
  rw [List.flatMap_append, Sign.written_ofBytes]
  exact (sealed_low mem low).append_avoids rest (reserved_ne_nil sub mem)

theorem avoids_attribute (mem : sub ∈ reserved) {a : Attribute} (canonical : a.IsCanonical)
    (rest : Avoids (signs.flatMap Sign.written) sub) :
    Avoids ((a.signs ++ signs).flatMap Sign.written) sub := by
  have name : ∀ b ∈ space :: a.source, b < 0x80 :=
    List.forall_mem_cons.mpr ⟨by decide, low_of_isPlainName canonical.name⟩
  rw [Attribute.signs, List.append_assoc]
  refine avoids_bytes mem name ?_
  split
  · exact rest
  · rename_i v valued
    simp only [List.append_assoc]
    have opener : ∀ b ∈ [equals, quote], b < 0x80 := List.all_iff_forall_prop.mp (by decide)
    have closer : ∀ b ∈ [quote], b < 0x80 := List.all_iff_forall_prop.mp (by decide)
    refine avoids_bytes mem opener (avoids_parts mem (canonical.value v valued).2.interleaved
      (avoids_bytes mem closer rest) ?_)
    intro b first
    cases first
    exact low_not_mem mem (by decide)

theorem avoids_attributes (mem : sub ∈ reserved) {as : List Attribute}
    (canonical : ∀ a ∈ as, a.IsCanonical) (rest : Avoids (signs.flatMap Sign.written) sub) :
    Avoids ((as.flatMap Attribute.signs ++ signs).flatMap Sign.written) sub := by
  induction as with
  | nil => exact rest
  | cons a as ih =>
    rw [List.forall_mem_cons] at canonical
    rw [List.flatMap_cons, List.append_assoc]
    exact avoids_attribute mem canonical.1 (ih canonical.2)

theorem avoids_tag (mem : sub ∈ reserved) {t : Tag} (canonical : t.IsCanonical)
    (rest : Avoids (signs.flatMap Sign.written) sub) :
    Avoids ((t.signs ++ signs).flatMap Sign.written) sub := by
  have opener : ∀ b ∈ lt :: (if t.closing then [slash] else []), b < 0x80 := by
    cases t.closing <;> exact List.all_iff_forall_prop.mp (by decide)
  have closer : ∀ b ∈ if t.solidus then [slash, gt] else [gt], b < 0x80 := by
    cases t.solidus <;> exact List.all_iff_forall_prop.mp (by decide)
  have name := List.forall_mem_append.mpr ⟨opener, low_of_isPlainName canonical.name⟩
  rw [Tag.signs, Tag.restSigns, List.append_assoc, List.append_assoc]
  exact avoids_bytes mem name (avoids_attributes mem canonical.each (avoids_bytes mem closer rest))

theorem avoids_nodes (mem : sub ∈ reserved) {ns : List Node} (h : CanonicalNodes ns) :
    Avoids ((ns.flatMap Node.signs).flatMap Sign.written) sub := by
  induction ns with
  | nil => exact avoids_nil (reserved_ne_nil sub mem)
  | cons n ns ih =>
    have canonical := h.each n List.mem_cons_self
    have later := ih h.tail
    rw [List.flatMap_cons]
    cases n with
    | tag t => exact avoids_tag mem canonical later
    | text parts =>
      refine avoids_parts mem canonical.2.interleaved later fun b first => ?_
      rcases h.after_text with rfl | ⟨t, rest, rfl, -⟩
      · cases first
      · cases first
        exact low_not_mem mem (by decide)
    | absent | code | raw | comment | doctype | misplaced => exact canonical.elim

theorem cut?_of_avoids {s : Bytes} (nonempty : sub ≠ []) (avoids : Avoids s sub) :
    Bytes.cut? sub s = none := by
  cases found : Bytes.cut? sub s with
  | none => rfl
  | some cut => exact absurd ⟨cut.1, cut.2, (cut?_spec nonempty found).1.symm⟩ avoids

theorem Document.IsCanonical.reservedOffset?_eq_none {doc : Document} (h : doc.IsCanonical) :
    reservedOffset? doc.print = none := by
  have absent (sub : Bytes) (mem : sub ∈ reserved) : Bytes.cut? sub doc.print = none :=
    cut?_of_avoids (reserved_ne_nil sub mem) (avoids_nodes mem h)
  simp only [reservedOffset?, absent markOpen (by decide), absent markClose (by decide)]
  rfl

end Reserved

end DomTemplate
