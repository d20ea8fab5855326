import DomTemplate.Proofs.PrintedTags
import DomTemplate.Proofs.Reading
import DomTemplate.Proofs.References

/-! Reading a print gives the document back. In the masked text each block is its number, and
the numbers follow each other, so that a stretch of the text is read with the codes from its
first number on. Literal text comes back by decoding, code by its number, and the tokens of the
masked text are the nodes of the document. -/

namespace DomTemplate
open Ascii Bytes Markup

def Part.placeless : Part → Part
  | code block => code { block with pos := {} }
  | p => p

def AttrValue.placeless (v : AttrValue) : AttrValue :=
  { v with parts := v.parts.map Part.placeless }

def Attribute.placeless (a : Attribute) : Attribute where
  name := a.name.map (List.map Part.placeless)
  value := a.value.map AttrValue.placeless
  pos := {}

def Tag.placeless (t : Tag) : Tag :=
  { t with
    name := t.name.map (List.map Part.placeless)
    attrs := t.attrs.map (List.map (Option.map Attribute.placeless))
    pos := {} }

def Node.placeless : Node → Node
  | tag t => tag t.placeless
  | text parts => text (parts.map Part.placeless)
  | code block => code { block with pos := {} }
  | comment content _ => comment content {}
  | doctype content _ => doctype content {}
  | n => n

/-- The document without the places of its nodes and codes. -/
def Document.placeless (doc : Document) : Document := ⟨doc.children.map Node.placeless⟩

namespace Agree
variable {α β γ δ : Type} {f : α → γ} {g : β → δ} {a : Except Failure α} {y : α} {z : β}

theorem exists_ok (h : Agree f a (.ok y)) : ∃ x, a = .ok x ∧ f x = f y := by
  cases a with
  | error e => cases h
  | ok x => exact ⟨x, rfl, Option.some.inj h⟩

theorem bind_ok {k : α → Except Failure β} (h : Agree f a (.ok y))
    (next : ∀ x, f x = f y → Agree g (k x) (.ok z)) : Agree g (a >>= k) (.ok z) := by
  obtain ⟨x, rfl, same⟩ := h.exists_ok
  exact next x same

theorem map_ok {k : α → β} (h : Agree f a (.ok y)) (next : ∀ x, f x = f y → g (k x) = g z) :
    Agree g (a.map k) (.ok z) := by
  obtain ⟨x, rfl, same⟩ := h.exists_ok
  exact .ok (next x same)

end Agree

namespace Sign

def code? : Sign → Option Code
  | byte _ => none
  | code c => some c

def codes (signs : List Sign) : List Code := signs.filterMap code?

/-- The masked text of a print, its blocks being numbered from `k` on. -/
def shown (k : Nat) : List Sign → Bytes
  | [] => []
  | byte b :: rest => b :: shown k rest
  | code _ :: rest => mark k ++ shown (k + 1) rest

variable {signs : List Sign}

@[simp] theorem codes_ofBytes (s : Bytes) : codes (ofBytes s) = [] := by
  simp [codes, ofBytes, List.filterMap_map, Function.comp_def, code?]

@[simp] theorem codes_append (a b : List Sign) : codes (a ++ b) = codes a ++ codes b :=
  List.filterMap_append

theorem shown_append (k : Nat) (a b : List Sign) :
    shown k (a ++ b) = shown k a ++ shown (k + (codes a).length) b := by
  induction a generalizing k with
  | nil => rfl
  | cons sign a ih =>
    cases sign with
    | byte c => simp only [List.cons_append, shown, ih]; rfl
    | code c =>
      simp only [List.cons_append, shown, ih, codes, List.filterMap_cons, code?, List.length_cons,
        List.append_assoc]
      rw [Nat.add_right_comm, Nat.add_assoc]

@[simp] theorem shown_ofBytes (k : Nat) (s : Bytes) : shown k (ofBytes s) = s := by
  induction s with
  | nil => rfl
  | cons b s ih => exact congrArg (b :: ·) ih

theorem shown_ofBytes_append (k : Nat) (s : Bytes) (signs : List Sign) :
    shown k (ofBytes s ++ signs) = s ++ shown k signs := by
  rw [shown_append, shown_ofBytes, codes_ofBytes]
  rfl

theorem text_numbered (k : Nat) (signs : List Sign) : (numbered k signs).text = shown k signs := by
  induction signs generalizing k with
  | nil => rfl
  | cons sign signs ih =>
    cases sign with
    | byte b => exact congrArg (b :: ·) (ih k)
    | code c =>
      rw [numbered, Masked.text, List.flatMap_cons, ← Masked.text, ih]
      rfl

end Sign

/-- From number `k` on, the blocks are those of the given codes. -/
def Holds (blocks : List (Nat × Block)) (k : Nat) (cs : List Code) : Prop :=
  ∀ i c, cs[i]? = some c → ∃ offset b, blocks[k + i]? = some (offset, b) ∧
    b.kind = c.kind ∧ b.source = c.source ∧ b.lead = false

namespace Holds
variable {blocks : List (Nat × Block)} {k : Nat} {cs ds : List Code} {c : Code}

theorem left (h : Holds blocks k (cs ++ ds)) : Holds blocks k cs := by
  intro i c found
  have inside := (List.getElem?_eq_some_iff.mp found).1
  exact h i c (by rwa [List.getElem?_append_left inside])

theorem right (h : Holds blocks k (cs ++ ds)) : Holds blocks (k + cs.length) ds := by
  intro i c found
  rw [Nat.add_assoc]
  refine h (cs.length + i) c ?_
  rwa [List.getElem?_append_right (Nat.le_add_right _ _), Nat.add_sub_cancel_left]

theorem head (h : Holds blocks k (c :: cs)) : ∃ offset b, blocks[k]? = some (offset, b) ∧
    b.kind = c.kind ∧ b.source = c.source ∧ b.lead = false :=
  h 0 c rfl

theorem tail (h : Holds blocks k (c :: cs)) : Holds blocks (k + 1) cs :=
  (show Holds blocks k ([c] ++ cs) from h).right

end Holds

theorem Sign.holds_numbered (start k : Nat) (signs : List Sign) :
    Holds ((numbered k signs).blocksFrom start) 0 (codes signs) := by
  induction signs generalizing start k with
  | nil => intro i c found; simp [codes] at found
  | cons sign signs ih =>
    cases sign with
    | byte b => exact ih (start + 1) k
    | code c =>
      intro i d found
      cases i with
      | zero =>
        cases found
        exact ⟨_, _, rfl, rfl, rfl, rfl⟩
      | succ i =>
        have later := ih (start + (Part.code c).source.length) (k + 1) i d found
        rw [Nat.zero_add] at later ⊢
        exact later

namespace Markup.Entity

theorem decode_cons {c : UInt8} (other : c ≠ amp) (s : Bytes) :
    decode (c :: s) = c :: decode s := by
  rw [decode, decodeFrom, if_neg other]
  rfl

theorem decode_append {s : Bytes} (quiet : amp ∉ s) (t : Bytes) :
    decode (s ++ t) = s ++ decode t := by
  induction s with
  | nil => rfl
  | cons c s ih =>
    rw [List.mem_cons, not_or] at quiet
    rw [List.cons_append, decode_cons (Ne.symm quiet.1), ih quiet.2, List.cons_append]

theorem lower_digit (a : UInt8) : isDigit a = true → Ascii.lower a ≠ lowerX := by
  revert a
  exact forall_byte (by decide +kernel)

/-- A decimal reference and its semicolon stand for the character. -/
theorem decode_decimal (a b : UInt8) (digits t : Bytes) {n : Nat} (digit : isDigit a = true)
    (value : number decimalDigit? 10 0 (a :: b :: digits ++ semicolon :: t) = (n, semicolon :: t)) :
    decode (amp :: sharp :: (a :: b :: digits ++ semicolon :: t)) =
      CodePoint.encode (ofNumber n) ++ decode t := by
  have numeric : numericReference? (a :: b :: digits ++ semicolon :: t) =
      some (CodePoint.encode (ofNumber n), t) := by
    have long : ¬2 + (a :: b :: digits ++ semicolon :: t).length - t.length ≤ 3 := by
      simp only [List.length_append, List.length_cons]
      omega
    rw [List.cons_append, List.cons_append, numericReference?, if_neg (lower_digit a digit),
      ← List.cons_append, ← List.cons_append, numeric?]
    simp only [Bool.false_eq_true, if_false, value, List.head?_cons, if_true, List.drop_one,
      List.tail_cons, long]
  have refers : reference? (sharp :: (a :: b :: digits ++ semicolon :: t)) =
      some (CodePoint.encode (ofNumber n), digits.length + 4) := by
    have width : (sharp :: (a :: b :: digits ++ semicolon :: t)).length - t.length =
        digits.length + 4 := by
      simp only [List.length_append, List.length_cons]
      omega
    rw [reference?, List.head?_cons, if_pos rfl, List.drop_one, List.tail_cons, numeric]
    simp only [Option.map_some, width]
  have rest : (sharp :: (a :: b :: digits ++ semicolon :: t)).drop (digits.length + 4) = t := by
    have whole : sharp :: (a :: b :: digits ++ semicolon :: t) =
        (sharp :: a :: b :: digits ++ [semicolon]) ++ t := by simp
    rw [whole, List.drop_left']
    simp
  rw [decode, decodeFrom, if_pos rfl, refers]
  simp only [decodeFrom_drop (digits.length + 4), rest, decode]

end Markup.Entity

/-- A replaced text is decoded to the text, if every `&` was replaced and each output is decoded
to its pattern. -/
theorem Rule.Replaced.decode {rules : List Rule} {s t : Bytes} (h : Replaced rules s t)
    (taken : ∃ rule ∈ rules, rule.pattern = [amp])
    (references : ∀ rule ∈ rules, ∀ k,
      Entity.decode (rule.output ++ k) = rule.pattern ++ Entity.decode k) (k : Bytes) :
    Entity.decode (t ++ k) = s ++ Entity.decode k := by
  induction h with
  | nil => rfl
  | @keep c s t unruled rest ih =>
    -- every `&` is replaced, so a byte that is kept starts no reference
    have other : c ≠ amp := by
      rintro rfl
      obtain ⟨rule, mem, pattern⟩ := taken
      exact unruled rule mem ⟨s, by rw [pattern]; rfl⟩
    rw [List.cons_append, Entity.decode_cons other, ih, List.cons_append]
  | @apply rule s t mem rest ih =>
    rw [List.append_assoc, references rule mem, ih, List.append_assoc]

/-- A printed literal is decoded to the literal. -/
theorem decode_printed (value t : Bytes) :
    Entity.decode (Rule.applyAll printRules value ++ t) = value ++ Entity.decode t := by
  have rules : printRules =
      [⟨[amp], [amp, sharp, 0x33, 0x38, semicolon]⟩, ⟨[lt], [amp, sharp, 0x36, 0x30, semicolon]⟩,
       ⟨[gt], [amp, sharp, 0x36, 0x32, semicolon]⟩, ⟨[quote], [amp, sharp, 0x33, 0x34, semicolon]⟩,
       ⟨[lbrace], [amp, sharp, 0x31, 0x32, 0x33, semicolon]⟩,
       ⟨[backslash], [amp, sharp, 0x39, 0x32, semicolon]⟩] := by decide
  refine (replaced_printRules value).decode (by decide) ?_ t
  simp only [rules, List.forall_mem_cons]
  exact ⟨fun t => Entity.decode_decimal 0x33 0x38 [] t rfl rfl,
    fun t => Entity.decode_decimal 0x36 0x30 [] t rfl rfl,
    fun t => Entity.decode_decimal 0x36 0x32 [] t rfl rfl,
    fun t => Entity.decode_decimal 0x33 0x34 [] t rfl rfl,
    fun t => Entity.decode_decimal 0x31 0x32 [0x33] t rfl rfl,
    fun t => Entity.decode_decimal 0x39 0x32 [] t rfl rfl, by simp⟩

theorem cr_not_mem_printed {value : Bytes} (absent : cr ∉ value) :
    cr ∉ Rule.applyAll printRules value := by
  have blunt : ∀ rule ∈ printRules, rule.Blunts [cr] := by decide +kernel
  have avoids := (replaced_printRules value).avoids blunt (by decide)
    (.inr fun inside => absent ((List.singleton_infix_iff _ _).mp inside))
  exact fun mem => avoids ((List.singleton_infix_iff _ _).mpr mem)

theorem not_mem_mark {b : UInt8} (other : isMarkByte b = false) (k : Nat) : b ∉ mark k := by
  intro mem
  rw [isMarkByte_mark k b mem] at other
  cases other

theorem Sign.not_mem_shown {b : UInt8} (other : isMarkByte b = false) {signs : List Sign}
    (absent : .byte b ∉ signs) (k : Nat) : b ∉ shown k signs := by
  induction signs generalizing k with
  | nil => exact List.not_mem_nil
  | cons sign signs ih =>
    rw [List.mem_cons, not_or] at absent
    cases sign with
    | byte c =>
      have differs : b ≠ c := fun same => absent.1 (congrArg _ same)
      exact List.not_mem_cons_of_ne_of_not_mem differs (ih absent.2 k)
    | code c =>
      rw [shown, List.mem_append, not_or]
      exact ⟨not_mem_mark other k, ih absent.2 (k + 1)⟩

theorem byte_not_mem_parts {b : UInt8} {parts : List Part}
    (absent : ∀ value, .raw value ∈ parts → b ∉ Rule.applyAll printRules value) :
    Sign.byte b ∉ parts.flatMap Part.signs := by
  intro mem
  obtain ⟨p, listed, inside⟩ := List.mem_flatMap.mp mem
  cases p with
  | raw value =>
    have found : b ∈ Rule.applyAll printRules value := by
      simpa [Part.signs, Sign.ofBytes] using inside
    exact absent value listed found
  | code c => simp [Part.signs] at inside
  | absent | misplaced kind => cases inside

theorem unifyLines_of_not_mem {s : Bytes} (absent : cr ∉ s) : unifyLines s = s := by
  induction s with
  | nil => rfl
  | cons c s ih =>
    rw [List.mem_cons, not_or] at absent
    rw [unifyLines, if_neg (Ne.symm absent.1), ih absent.2]

/-- The parts with the marks of their codes, numbered from `k` on. -/
def markedParts (k : Nat) : List Part → Bytes
  | [] => []
  | .raw value :: parts => value ++ markedParts k parts
  | .code _ :: parts => mark k ++ markedParts (k + 1) parts
  | _ :: parts => markedParts k parts

section Parts
variable {parts : List Part}

theorem decode_parts (canonical : ∀ p ∈ parts, p.IsCanonical) (k : Nat) :
    Entity.decode (Sign.shown k (parts.flatMap Part.signs)) = markedParts k parts := by
  induction parts generalizing k with
  | nil => rfl
  | cons p parts ih =>
    rw [List.forall_mem_cons] at canonical
    rw [List.flatMap_cons]
    cases p with
    | raw value =>
      rw [Part.signs, Sign.shown_ofBytes_append, decode_printed, ih canonical.2, markedParts]
    | code c =>
      have quiet : amp ∉ mark k := not_mem_mark (by decide) k
      rw [Part.signs, List.singleton_append, Sign.shown, Entity.decode_append quiet,
        ih canonical.2, markedParts]
    | absent | misplaced kind => exact canonical.1.elim

theorem shownText_parts (canonical : ∀ p ∈ parts, p.IsCanonical) (k : Nat) :
    shownText (Sign.shown k (parts.flatMap Part.signs)) = markedParts k parts := by
  have lines : Sign.byte cr ∉ parts.flatMap Part.signs :=
    byte_not_mem_parts fun value mem => cr_not_mem_printed (canonical _ mem).2.1
  rw [shownText, unifyLines_of_not_mem (Sign.not_mem_shown (by decide) lines k),
    decode_parts canonical]

end Parts

section Marks
variable {blocks : List (Nat × Block)} {k : Nat}

theorem cut?_markOpen {s : Bytes} (avoids : Avoids s markOpen) (t : Bytes) :
    Bytes.cut? markOpen (s ++ (markOpen ++ t)) = some (s, t) := by
  induction s with
  | nil => rfl
  | cons c s ih =>
    -- the first byte of a mark is none of its others, so that marks do not overlap
    have absent : Bytes.dropPrefix? markOpen (c :: (s ++ (markOpen ++ t))) = none := by
      rcases s with _ | ⟨d, _ | ⟨e, s⟩⟩
      · simp [Bytes.dropPrefix?, markOpen]
      · simp [Bytes.dropPrefix?, markOpen]
      · by_contra present
        obtain ⟨rest, found⟩ := Option.ne_none_iff_exists'.mp present
        have start := Bytes.dropPrefix?_eq_some.mp found
        simp only [markOpen, List.cons_append, List.cons.injEq] at start
        obtain ⟨rfl, rfl, rfl, -⟩ := start
        exact avoids (List.prefix_append _ s).isInfix
    rw [List.cons_append, Bytes.cut?, absent, ih (avoids.inside (List.suffix_cons c s).isInfix)]
    rfl

/-- The first mark after a literal is that of the next block. -/
theorem firstMark_mark {s : Bytes} (avoids : Avoids s markOpen) (small : k < signedLimit)
    {offset : Nat} {b : Block} (found : blocks[k]? = some (offset, b)) (rest : Bytes) :
    firstMark blocks (s ++ (mark k ++ rest)) = .block (b.headOf s) offset b rest := by
  have opened : Bytes.cut? markOpen (s ++ (mark k ++ rest)) =
      some (s, Bytes.decimal k ++ markClose ++ rest) := by
    rw [mark, List.append_assoc markOpen, List.append_assoc markOpen]
    exact cut?_markOpen avoids _
  rw [firstMark_opened opened found, if_pos small]

theorem firstMark_next {s : Bytes} (avoids : Avoids s markOpen) (small : k < signedLimit)
    {offset : Nat} {b : Block} (found : blocks[k]? = some (offset, b)) (plain : b.lead = false)
    (rest : Bytes) : firstMark blocks (s ++ (mark k ++ rest)) = .block s offset b rest := by
  rw [firstMark_mark avoids small found, Block.headOf, plain]
  rfl

/-- A literal, which may be empty, and the code after it. -/
theorem expand_code (src value : Bytes) {c : Code} {parts : List Part}
    (few : blocks.length ≤ signedLimit) (avoids : Avoids value markOpen)
    (holds : Holds blocks k (c :: Sign.codes (parts.flatMap Part.signs)))
    (rest : Agree (List.map Part.placeless) (expand src blocks (markedParts (k + 1) parts))
      (.ok parts)) :
    Agree (List.map Part.placeless)
      (expand src blocks (value ++ (mark k ++ markedParts (k + 1) parts)))
      (.ok (if value.isEmpty then .code c :: parts else .raw value :: .code c :: parts)) := by
  obtain ⟨offset, b, found, kind, source, plain⟩ := holds.head
  have small : k < signedLimit := Nat.lt_of_lt_of_le (List.getElem?_eq_some_iff.mp found).1 few
  have nonempty : ¬(value ++ (mark k ++ markedParts (k + 1) parts)).isEmpty = true := by
    simp [mark, markOpen]
  rw [expand_eq, if_neg nonempty]
  simp only [firstMark_next avoids small found plain]
  refine rest.map_ok fun read same => ?_
  split <;> simp [Part.placeless, kind, source, same]

theorem expand_literal (src : Bytes) {value : Bytes} (nonempty : value ≠ [])
    (avoids : Avoids value markOpen) : expand src blocks value = .ok [.raw value] := by
  have absent : firstMark blocks value = .none := by
    rw [firstMark, cut?_of_avoids (by decide) avoids]
  rw [expand_eq, if_neg (by simpa using nonempty), absent]

/-- Marked parts are split into the parts. -/
theorem expand_marked (src : Bytes) {parts : List Part} (h : Interleaved parts)
    (few : blocks.length ≤ signedLimit)
    (holds : Holds blocks k (Sign.codes (parts.flatMap Part.signs))) :
    Agree (List.map Part.placeless) (expand src blocks (markedParts k parts)) (.ok parts) := by
  induction h generalizing k with
  | nil =>
    rw [markedParts, expand_eq]
    exact .ok rfl
  | code canonical rest ih =>
    exact expand_code src [] few (avoids_nil (by decide)) holds (ih holds.tail)
  | @last value canonical =>
    rw [markedParts, markedParts, List.append_nil,
      expand_literal src canonical.1 (canonical.2.2.2 _ (by decide))]
    exact .ok rfl
  | @literal value c parts canonical coded rest ih =>
    rw [List.flatMap_cons, Sign.codes_append, Part.signs, Sign.codes_ofBytes, List.nil_append]
      at holds
    have read := expand_code src value few (canonical.2.2.2 _ (by decide)) holds (ih holds.tail)
    rwa [if_neg (by simpa using canonical.1)] at read

end Marks

/-- The attributes in the masked text, their blocks being numbered from `k` on. -/
def printedAttributes (k : Nat) : List Attribute → List PrintedAttribute
  | [] => []
  | a :: as =>
    ⟨a.source, a.value.map fun v => Sign.shown k (v.parts.flatMap Part.signs)⟩ ::
      printedAttributes (k + (Sign.codes a.signs).length) as

theorem Attribute.codes_signs (a : Attribute) :
    Sign.codes a.signs = match a.value with
      | none => []
      | some v => Sign.codes (v.parts.flatMap Part.signs) := by
  rw [signs, Sign.codes_append, Sign.codes_ofBytes, List.nil_append]
  cases a.value with
  | none => rfl
  | some v => simp

theorem shown_attributes (k : Nat) (as : List Attribute) :
    Sign.shown k (as.flatMap Attribute.signs) =
      (printedAttributes k as).flatMap PrintedAttribute.text := by
  induction as generalizing k with
  | nil => rfl
  | cons a as ih =>
    have text : Sign.shown k a.signs = PrintedAttribute.text
        ⟨a.source, a.value.map fun v => Sign.shown k (v.parts.flatMap Part.signs)⟩ := by
      rw [Attribute.signs, Sign.shown_ofBytes_append, PrintedAttribute.text]
      cases a.value with
      | none => rfl
      | some v =>
        simp only [List.append_assoc, Sign.shown_ofBytes_append, Option.map_some]
        rw [Sign.shown_append, Sign.shown_ofBytes]
        rfl
    rw [List.flatMap_cons, Sign.shown_append, text, ih, printedAttributes, List.flatMap_cons]

theorem readable_attributes {as : List Attribute} (canonical : ∀ a ∈ as, a.IsCanonical) (k : Nat) :
    ∀ a ∈ printedAttributes k as, a.IsReadable := by
  induction as generalizing k with
  | nil => simp [printedAttributes]
  | cons a as ih =>
    rw [List.forall_mem_cons] at canonical
    rw [printedAttributes, List.forall_mem_cons]
    refine ⟨⟨canonical.1.name, fun text valued => ?_⟩, ih canonical.2 _⟩
    obtain ⟨v, valued, rfl⟩ := Option.map_eq_some_iff.mp valued
    exact Sign.not_mem_shown (by decide)
      (byte_not_mem_parts fun value _ => not_mem_printed (by decide) value) k

theorem key_printedAttributes (k : Nat) (as : List Attribute) :
    (printedAttributes k as).map PrintedAttribute.key = as.map Attribute.source := by
  induction as generalizing k with
  | nil => rfl
  | cons a as ih => rw [printedAttributes, List.map_cons, ih, List.map_cons]

theorem Tag.shown_restSigns (t : Tag) (k : Nat) :
    Sign.shown k t.restSigns = printedEnd (printedAttributes k t.attributes) t.solidus := by
  rw [restSigns, Sign.shown_append, shown_attributes, Sign.shown_ofBytes, printedEnd]

theorem Tag.codes_signs (t : Tag) :
    Sign.codes t.signs = Sign.codes (t.attributes.flatMap Attribute.signs) := by
  simp [signs, restSigns]

theorem Tag.shown_signs (t : Tag) (k : Nat) :
    Sign.shown k t.signs = lt :: (if t.closing then [slash] else []) ++ t.source ++
      printedEnd (printedAttributes k t.attributes) t.solidus := by
  rw [signs, Sign.shown_ofBytes_append, shown_restSigns]

theorem Tag.IsCanonical.markupStarts {t : Tag} (canonical : t.IsCanonical) (k : Nat)
    (rest : Bytes) : Markup.markupStarts (Sign.shown k t.signs ++ rest) = true := by
  obtain ⟨c, cs, name, small⟩ := exists_of_isPlainName canonical.name
  have letter := (isLower_spec c small).2.2.2.2
  rw [t.shown_signs, name]
  cases t.closing <;> simp [Markup.markupStarts, letter]

theorem shown_parts_ne_nil {parts : List Part} (canonical : ∀ p ∈ parts, p.IsCanonical)
    (nonempty : parts ≠ []) (k : Nat) : Sign.shown k (parts.flatMap Part.signs) ≠ [] := by
  intro empty
  have decoded := decode_parts canonical k
  rw [empty] at decoded
  cases parts with
  | nil => exact nonempty rfl
  | cons p parts =>
    rw [List.forall_mem_cons] at canonical
    cases p with
    | raw value => exact canonical.1.1 (List.append_eq_nil_iff.mp decoded.symm).1
    | code c => cases decoded
    | absent | misplaced kind => exact canonical.1

/-- A tag of the right name and attributes differs in its place at most. -/
theorem Tag.IsCanonical.assembled {t : Tag} (canonical : t.IsCanonical) {as : List Attribute}
    (same : as.map Attribute.placeless = t.attributes.map Attribute.placeless) (pos : Pos) :
    Tag.placeless ⟨some [.raw t.source], if as.isEmpty then none else some (as.map some), t.closing,
      t.solidus, pos⟩ = t.placeless := by
  have empty : as.isEmpty = t.attributes.isEmpty := by
    rw [← List.isEmpty_map (f := Attribute.placeless), same, List.isEmpty_map]
  have lists : (as.map some).map (Option.map Attribute.placeless) =
      (t.attributes.map some).map (Option.map Attribute.placeless) := by
    have wrapped := congrArg (List.map some) same
    simpa [List.map_map, Function.comp_def] using wrapped
  rw [Tag.placeless, Tag.placeless, canonical.static, canonical.listed, empty]
  cases t.attributes.isEmpty
  · simp [lists]
  · rfl

namespace MaskedSource
variable {m : MaskedSource} {k : Nat}

theorem expand_name {name : Bytes} (plain : isPlainName name = true) :
    m.expand (Bytes.lower name) = .ok [.raw name] := by
  have first : (0xEE : UInt8) ∉ name := fun mem =>
    absurd (low_of_isPlainName plain _ mem) (by decide)
  obtain ⟨c, cs, same, -⟩ := exists_of_isPlainName plain
  rw [lower_of_isPlainName plain]
  exact expand_literal m.src (by simp [same]) (sealed_of_not_mem rfl first).avoids

/-- A printed attribute is read to the attribute. -/
theorem attr_printed (few : m.masked.blocks.length ≤ signedLimit) (start : Nat) {a : Attribute}
    (canonical : a.IsCanonical) (holds : Holds m.masked.blocks k (Sign.codes a.signs))
    {r : RawAttribute} (key : r.key = a.source)
    (value : r.value = a.value.map fun v =>
      ⟨some .double, Sign.shown k (v.parts.flatMap Part.signs)⟩) :
    Agree Attribute.placeless (m.attr start r) (.ok a) := by
  rw [Attribute.codes_signs] at holds
  have values : Agree (Option.map AttrValue.placeless)
      (r.value.mapM fun v => do
        return { quote := v.quote, parts := ← m.expand (Entity.decode v.text) : AttrValue })
      (.ok a.value) := by
    rw [value]
    cases valued : a.value with
    | none => exact .ok rfl
    | some v =>
      obtain ⟨quoted, parts⟩ := canonical.value v valued
      simp only [valued] at holds
      have read := expand_marked m.src parts.interleaved few holds
      rw [← decode_parts parts.each k] at read
      refine (read.bind_ok (g := AttrValue.placeless) (z := v) fun ps same => .ok ?_).bind_ok
        fun w same => .ok (congrArg some same)
      simp [AttrValue.placeless, same, quoted]
  rw [attr, key, expand_name canonical.name]
  refine values.bind_ok fun v same => .ok ?_
  simp [Attribute.placeless, same, canonical.static, Part.placeless]

theorem attrs_printed (few : m.masked.blocks.length ≤ signedLimit) (start : Nat)
    {as : List Attribute} (canonical : ∀ a ∈ as, a.IsCanonical)
    (holds : Holds m.masked.blocks k (Sign.codes (as.flatMap Attribute.signs)))
    {rs : List RawAttribute}
    (read : rs.map (fun r => (r.key, r.value)) =
      (printedAttributes k as).map fun a => (a.key, a.value.map (⟨some .double, ·⟩))) :
    Agree (List.map Attribute.placeless) (rs.mapM (m.attr start)) (.ok as) := by
  induction as generalizing k rs with
  | nil =>
    obtain rfl : rs = [] := by simpa [printedAttributes] using read
    exact .ok rfl
  | cons a as ih =>
    rw [List.forall_mem_cons] at canonical
    rw [List.flatMap_cons, Sign.codes_append] at holds
    cases rs with
    | nil => simp [printedAttributes] at read
    | cons r rs =>
      rw [printedAttributes, List.map_cons, List.map_cons, List.cons.injEq, Prod.mk.injEq] at read
      obtain ⟨⟨key, value⟩, later⟩ := read
      rw [Option.map_map] at value
      rw [List.mapM_cons]
      refine (attr_printed few start canonical.1 holds.left key value).bind_ok fun b first => ?_
      refine (ih canonical.2 holds.right later).bind_ok fun bs rest => .ok ?_
      rw [List.map_cons, List.map_cons, first, rest]

theorem startTag_printed (few : m.masked.blocks.length ≤ signedLimit) (start : Nat) {t : Tag}
    (canonical : t.IsCanonical) (opening : t.closing = false)
    (holds : Holds m.masked.blocks k (Sign.codes (t.attributes.flatMap Attribute.signs))) :
    Agree Tag.placeless
      (m.tag (lt :: (t.source ++ printedEnd (printedAttributes k t.attributes) t.solidus)) start 1
        false t.solidus) (.ok t) := by
  have readable := readable_attributes canonical.each k
  have follows : Follows (printedEnd (printedAttributes k t.attributes) t.solidus) := by
    simpa using follows_printedEnd readable t.solidus []
  obtain ⟨name, rest⟩ := split_name canonical.name follows
  have distinct : ((printedAttributes k t.attributes).map PrintedAttribute.key).Nodup := by
    rw [key_printedAttributes]
    exact canonical.distinct
  simp only [MaskedSource.tag, List.drop_one, List.tail_cons, name, rest,
    expand_name canonical.name, Bool.false_eq_true, if_false]
  refine (attrs_printed few start canonical.each holds
    (distinct_printedEnd readable distinct (by simp) t.solidus _)).bind_ok fun as same => .ok ?_
  rw [← opening]
  exact canonical.assembled same _

theorem endTag_printed (start : Nat) {t : Tag} (canonical : t.IsCanonical)
    (closing : t.closing = true) :
    Agree Tag.placeless
      (m.tag (lt :: slash :: (t.source ++ printedEnd [] false)) start 2 true false) (.ok t) := by
  obtain ⟨bare, plain⟩ := canonical.closed closing
  obtain ⟨name, -⟩ := split_name canonical.name (.close [])
  have none : ([] : List Attribute).map Attribute.placeless =
      t.attributes.map Attribute.placeless := by rw [bare]
  have read := canonical.assembled none (m.pos start)
  rw [closing, plain] at read
  have body : (lt :: slash :: (t.source ++ printedEnd [] false)).drop 2 = t.source ++ [gt] := rfl
  simp only [MaskedSource.tag, body, name, expand_name canonical.name, if_true]
  exact .ok read

/-- The text `s` is read to the given nodes, wherever it starts. -/
def ReadsTo (m : MaskedSource) (s : Bytes) (ns : List Node) : Prop :=
  ∀ start, Agree (List.map Node.placeless) (m.nodes start (tokensFrom none s)) (.ok ns)

theorem ReadsTo.cons {s rest : Bytes} {token : Token} {n : Node} {ns : List Node}
    (tail : m.ReadsTo rest ns) (nonempty : s ≠ []) (first : firstToken none s = (token, rest))
    (ordinary : token.opens = none)
    (head : ∀ start, Agree (Option.map Node.placeless) (m.node? start token) (.ok (some n))) :
    m.ReadsTo s (n :: ns) := by
  intro start
  rw [tokensFrom_cons nonempty first ordinary, nodes]
  refine (head start).bind_ok fun node same => (tail _).bind_ok fun nodes later => .ok ?_
  obtain ⟨n', rfl, alike⟩ := Option.map_eq_some_iff.mp same
  simp [alike, later]

theorem ReadsTo.tag {rest : Bytes} {t : Tag} {ns : List Node} (tail : m.ReadsTo rest ns)
    (few : m.masked.blocks.length ≤ signedLimit) (canonical : t.IsCanonical)
    (holds : Holds m.masked.blocks k (Sign.codes t.signs)) :
    m.ReadsTo (Sign.shown k t.signs ++ rest) (.tag t :: ns) := by
  have nonempty : Sign.shown k t.signs ++ rest ≠ [] := by simp [t.shown_signs]
  rw [t.codes_signs] at holds
  rw [t.shown_signs] at nonempty ⊢
  cases closing : t.closing with
  | false =>
    obtain ⟨parts, first, name, solidus⟩ :=
      firstToken_start canonical.name (readable_attributes canonical.each k) t.solidus rest
    simp only [closing, Bool.false_eq_true, if_false, List.cons_append, List.nil_append]
      at nonempty ⊢
    refine tail.cons nonempty first ?_ fun start => ?_
    · rw [Token.opens, name]
      exact canonical.ordinary
    · rw [node?, solidus]
      exact (startTag_printed few start canonical closing holds).bind_ok fun t' same =>
        .ok (congrArg (some ∘ Node.tag) same)
  | true =>
    obtain ⟨bare, plain⟩ := canonical.closed closing
    simp only [closing, bare, plain, if_true, printedAttributes, List.cons_append, List.nil_append]
      at nonempty ⊢
    refine tail.cons nonempty (firstToken_end canonical.name rest) rfl fun start => ?_
    exact (endTag_printed start canonical closing).bind_ok fun t' same =>
      .ok (congrArg (some ∘ Node.tag) same)

theorem ReadsTo.text {rest : Bytes} {parts : List Part} {ns : List Node} (tail : m.ReadsTo rest ns)
    (few : m.masked.blocks.length ≤ signedLimit) (nonempty : parts ≠ [])
    (canonical : CanonicalParts parts)
    (holds : Holds m.masked.blocks k (Sign.codes (parts.flatMap Part.signs)))
    (apart : rest = [] ∨ markupStarts rest = true) :
    m.ReadsTo (Sign.shown k (parts.flatMap Part.signs) ++ rest) (.text parts :: ns) := by
  have filled := shown_parts_ne_nil canonical.each nonempty k
  have quiet : lt ∉ Sign.shown k (parts.flatMap Part.signs) := Sign.not_mem_shown (by decide)
    (byte_not_mem_parts fun value _ => not_mem_printed (by decide) value) k
  refine tail.cons (by simp [filled]) (firstToken_text filled quiet apart) rfl fun start => ?_
  rw [node?, shownText_parts canonical.each]
  refine (expand_marked m.src canonical.interleaved few holds).bind_ok fun ps same => .ok ?_
  have kept : ps ≠ [] := by
    rintro rfl
    exact nonempty (List.map_eq_nil_iff.mp same.symm)
  simp [kept, Node.placeless, same]

/-- The masked text of a print is read to the nodes that were printed. -/
theorem readsTo_printed (few : m.masked.blocks.length ≤ signedLimit) {ns : List Node}
    (h : CanonicalNodes ns)
    (holds : Holds m.masked.blocks k (Sign.codes (ns.flatMap Node.signs))) :
    m.ReadsTo (Sign.shown k (ns.flatMap Node.signs)) ns := by
  induction ns generalizing k with
  | nil =>
    intro start
    rw [List.flatMap_nil, Sign.shown, tokensFrom, dif_pos rfl]
    exact .ok rfl
  | cons n ns ih =>
    have canonical := h.each n List.mem_cons_self
    rw [List.flatMap_cons, Sign.codes_append] at holds
    have tail := ih h.tail holds.right
    rw [List.flatMap_cons, Sign.shown_append]
    cases n with
    | tag t => exact tail.tag few canonical holds.left
    | text parts =>
      refine tail.text few canonical.1 canonical.2 holds.left ?_
      -- no text follows another, so the text ends at a tag or with the source
      rcases h.after_text with rfl | ⟨t, rest, rfl, next⟩
      · exact .inl rfl
      · rw [List.flatMap_cons, Sign.shown_append]
        exact .inr (next.markupStarts _ _)
    | absent | code | raw | comment | doctype | misplaced => exact canonical.elim

end MaskedSource

/-- Reading the print of a canonical document gives the document, up to places. -/
theorem Document.parse_print {doc : Document} (canonical : doc.IsCanonical)
    (small : doc.print.length < signedLimit) :
    ∃ read, Document.parse .brace doc.print = .ok read ∧ read.placeless = doc.placeless := by
  have cut := Masked.ofSource_ok.mp canonical.masked
  have faithful : MaskedSource.Faithful ⟨doc.print, Sign.numbered 0 doc.signs⟩ :=
    ⟨cut.source_eq, cut.written_ne_nil, small⟩
  have nodes := MaskedSource.readsTo_printed (MaskedSource.few_blocks faithful) canonical
    (Sign.holds_numbered 0 0 doc.signs) 0
  obtain ⟨ns, read, same⟩ := nodes.exists_ok
  refine ⟨⟨ns⟩, ?_, congrArg Document.mk same⟩
  rw [Document.parse, canonical.reservedOffset?_eq_none, canonical.masked]
  simp only [Sign.text_numbered, tokens]
  exact congrArg (Except.map Document.mk) read

/-- Code with angle brackets, quotes and braces, next to literals with all that is escaped. -/
def mixedDocument : Document :=
  ⟨[.tag ⟨some [.raw (utf8 "p")],
      some [some ⟨some [.raw (utf8 "hidden")], none, {}⟩,
        some ⟨some [.raw (utf8 "data-x")],
          some ⟨some .double, [.raw (utf8 "a\"&"), .code ⟨.expression, utf8 "f(\"<>\")", {}⟩]⟩,
          {}⟩],
      false, false, {}⟩,
    .text [.raw (utf8 "1 < 2 \\\x7b"), .code ⟨.statement, utf8 "if (a) \x7b b('\x7d') \x7d", {}⟩],
    .tag ⟨some [.raw (utf8 "br")], none, false, true, {}⟩,
    .tag ⟨some [.raw (utf8 "p")], none, true, false, {}⟩]⟩

theorem Document.parse_print_mixed :
    mixedDocument.IsCanonical ∧ mixedDocument.print.length < signedLimit ∧
      mixedDocument.print =
        utf8 "<p hidden data-x=\"a&#34;&#38;\x7b=f(\"<>\")\x7d\">1 &#60; 2 &#92;&#123;" ++
          utf8 "\x7bif (a) \x7b b('\x7d') \x7d\x7d<br/></p>" ∧
      ∃ read, Document.parse .brace mixedDocument.print = .ok read ∧
        read.placeless = mixedDocument.placeless := by
  have canonical : mixedDocument.IsCanonical := by decide +kernel
  have small : mixedDocument.print.length < signedLimit := by decide +kernel
  exact ⟨canonical, small, by decide +kernel, Document.parse_print canonical small⟩

end DomTemplate
