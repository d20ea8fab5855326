import DomTemplate.Proofs.Layout
import DomTemplate.Proofs.Pieces
import DomTemplate.Proofs.RoundTrip
import DomTemplate.Proofs.Skeleton
import DomTemplate.Proofs.TagStates

/-! Tags that take their name from code. A code right behind a `<` is the name of a tag if the search
behind it finds the end of one, and is text otherwise. What follows the name of a tag is read alike
whatever the name is, and without blocks in it there is no mark to be read for another. So the tag has
the attributes that it has under a name as written. -/

namespace DomTemplate
open Ascii Bytes Markup

namespace Markup

/-- A run of text shows something. -/
theorem Token.IsWhole.shown_ne_nil {raw shown : Bytes} (h : (Token.text raw shown).IsWhole)
    (nonempty : raw ≠ []) : shown ≠ [] := by
  rcases h with rfl | ⟨element, rfl⟩
  · exact Entity.decode_ne_nil (unifyLines_ne_nil nonempty)
  · have lines := replaceNul_ne_nil (unifyLines_ne_nil nonempty)
    rw [RawElement.shown]
    split
    · exact Entity.decode_ne_nil lines
    · exact lines

theorem firstToken_raw_ne_nil (inside : Option RawElement) {s : Bytes} (nonempty : s ≠ []) :
    (firstToken inside s).1.raw ≠ [] := by
  intro empty
  have shorter := length_firstToken_lt inside nonempty
  have whole := (firstToken_reads inside s).1
  rw [empty, List.nil_append] at whole
  rw [whole] at shorter
  exact Nat.lt_irrefl _ shorter

end Markup

theorem expand_ne_nil (src : Bytes) (blocks : List (Nat × Block)) {s : Bytes} (nonempty : s ≠ []) :
    expand src blocks s ≠ .ok [] := by
  rw [expand_eq, if_neg (by simpa using nonempty)]
  split
  · simp
  · simp
  · simp
  · intro read
    obtain ⟨parts, -, none⟩ := exists_of_map_ok read
    dsimp only at none
    split_ifs at none

namespace MaskedSource

section Nodes
variable {m : MaskedSource} {start : Nat} {ns : List Node}

theorem nodes_cons_ok {t : Token} {ts : List Token} (h : m.nodes start (t :: ts) = .ok ns) :
    ∃ node rest, m.node? start t = .ok node ∧ m.nodes (start + t.raw.length) ts = .ok rest ∧
      ns = node.toList ++ rest := by
  rw [nodes] at h
  obtain ⟨node, first, h⟩ := exists_of_bind_ok h
  obtain ⟨rest, later, h⟩ := exists_of_bind_ok h
  exact ⟨node, rest, first, later, (Except.ok.inj h).symm⟩

/-- Only a text without parts is read to nothing. -/
theorem node?_eq_none {t : Token} (h : m.node? start t = .ok none) :
    ∃ raw shown, t = .text raw shown ∧ m.expand shown = .ok [] := by
  cases t with
  | text raw shown =>
    obtain ⟨parts, read, h⟩ := exists_of_bind_ok h
    have empty : parts = [] := by simpa using Except.ok.inj h
    exact ⟨raw, shown, rfl, empty ▸ read⟩
  | startTag | endTag | comment =>
    obtain ⟨_, -, h⟩ := exists_of_bind_ok h
    cases h
  | doctype | unfinished => cases h

/-- A text that is not empty is read to something. -/
theorem nodes_ne_nil (m : MaskedSource) (start : Nat) (inside : Option RawElement) {s : Bytes}
    (nonempty : s ≠ []) : m.nodes start (tokensFrom inside s) ≠ .ok [] := by
  intro read
  rw [tokensFrom, dif_neg nonempty] at read
  obtain ⟨node, rest, first, -, same⟩ := nodes_cons_ok read
  obtain rfl : node = none := by simpa using (List.append_eq_nil_iff.mp same.symm).1
  obtain ⟨raw, shown, text, empty⟩ := node?_eq_none first
  have whole : (firstToken inside s).1.IsWhole := isWhole_firstToken nonempty
  have filled := firstToken_raw_ne_nil inside nonempty
  rw [text] at whole filled
  exact expand_ne_nil _ _ (whole.shown_ne_nil filled) empty

end Nodes

end MaskedSource

section Masking

/-- A text without braces is masked as it stands. -/
theorem cut_braceless {state : MaskState} {context : BraceContext} {s : Bytes} (braceless : lbrace ∉ s) :
    Cut .brace state context s (s.map Piece.byte) := by
  induction s generalizing state context with
  | nil => exact .nil
  | cons c s ih =>
    rw [List.mem_cons, not_or] at braceless
    refine .byte ?_ (ih braceless.2)
    rintro (escape | block)
    · exact braceless.2 (List.mem_of_mem_head? escape.2)
    · exact braceless.1 block.1.symm

theorem Masked.text_bytes (s : Bytes) : Masked.text (s.map Piece.byte) = s := by
  simp [Masked.text, List.flatMap_map, Piece.shown]

theorem Masked.blocksFrom_bytes (start : Nat) (s : Bytes) :
    Masked.blocksFrom start (s.map Piece.byte) = [] := by
  induction s generalizing start with
  | nil => rfl
  | cons c s ih => exact ih _

/-- The block of a code that stands right behind a `<` and before `rest`. -/
def nameBlock (code : Code) (rest : Bytes) : Block :=
  ⟨0, code.kind, code.source, (Part.code code).source, closesTag .brace false false rest⟩

theorem cut_named {code : Code} (canonical : code.IsCanonical) {rest : Bytes} (braceless : lbrace ∉ rest) :
    Cut .brace {} .markup (lt :: ((Part.code code).source ++ rest))
      (.byte lt :: .block (nameBlock code rest) :: rest.map Piece.byte) := by
  have read := canonical.braceCode_inner
  have unopened : BraceContext.opened? ((Part.code code).source ++ rest) = none := by
    rw [Part.source_code]
    rfl
  have block : MaskState.block (MaskState.push {} (.byte lt)) .brace code.inner (Part.code code).source
      rest = nameBlock code rest := by
    simp [MaskState.block, nameBlock, Delimiters.codeOf, read, canonical.trimmed, MaskState.push,
      Piece.shown, endsInTagOpen]
  have filled : (Delimiters.brace.codeOf code.inner).2.trim ≠ [] := by
    simpa [Delimiters.codeOf, read, canonical.trimmed] using canonical.nonempty
  refine .byte (Sign.starts_plain (by decide) _) ?_
  rw [← block, BraceContext.next, if_pos rfl, unopened]
  exact .block canonical.encloses (.inl filled) (fun _ inside => by cases inside)
    (cut_braceless braceless)

end Masking

section Tags
variable {name rest : Bytes}

/-- A name of a tag with what follows it: a letter starts it, and something that ends names comes
behind it. -/
structure NamesTag (name rest : Bytes) : Prop where
  letter : ∃ c cs, name = c :: cs ∧ isLetter c = true
  whole : ∀ b ∈ name, (!endsName b) = true
  ended : ∃ b t, rest = b :: t ∧ (!endsName b) = false

namespace NamesTag

theorem split (h : NamesTag name rest) :
    (name ++ rest).takeWhile (!endsName ·) = name ∧ (name ++ rest).dropWhile (!endsName ·) = rest := by
  obtain ⟨b, t, rfl, stop⟩ := h.ended
  exact ⟨takeWhile_append_stop h.whole stop, dropWhile_append_stop h.whole stop⟩

theorem firstToken (h : NamesTag name rest) :
    Markup.firstToken none (lt :: (name ++ rest)) =
      match tagEndSpan? false rest with
      | some (tail, left) =>
        (.startTag (consumed (lt :: (name ++ rest)) left) { tail with name := name }, left)
      | none => (.unfinished (lt :: (name ++ rest)), []) := by
  obtain ⟨first, after⟩ := h.split
  obtain ⟨c, cs, same, letter⟩ := h.letter
  have start : name ++ rest = c :: (cs ++ rest) := by rw [same, List.cons_append]
  rw [firstToken_markup (by simp [start, markupStarts, letter]), start, markupToken, if_pos letter,
    startTagToken, ← start, tagSpan?, first, after]
  cases tagEndSpan? false rest <;> rfl

/-- A tag that the text ends with is its only token. -/
theorem tokens (h : NamesTag name rest) {tail : TagEnd} (span : tagEndSpan? false rest = some (tail, [])) :
    Markup.tokens (lt :: (name ++ rest)) =
      [.startTag (lt :: (name ++ rest)) { tail with name := name }] := by
  have first := h.firstToken
  have whole := consumed_front (lt :: (name ++ rest)) []
  rw [List.append_nil] at whole
  simp only [span, whole] at first
  rw [Markup.tokens, tokensFrom, dif_neg (List.cons_ne_nil _ _)]
  simp only [first]
  rw [tokensFrom, dif_pos rfl]

end NamesTag

end Tags

namespace RawAttribute

/-- The attribute without its place in the tag. -/
def unplaced (a : RawAttribute) : RawAttribute := { a with offset := 0 }

theorem map_unplaced_readAll (size size' : Nat) (s : Bytes) :
    (readAll size s).map unplaced = (readAll size' s).map unplaced := by
  fun_induction readAll size s with
  | case1 s none => rw [readAll_eq, none]
  | case2 s cs closed => rw [readAll_eq, closed]; rfl
  | case3 s c cs first more shorter fits ih =>
    rw [readAll_eq size', first]
    simp only [more, if_false, List.map_cons, ih]
    rfl

theorem map_unplaced_distinct (seen : List Bytes) (as : List RawAttribute) :
    (distinct seen as).map unplaced = distinct seen (as.map unplaced) := by
  fun_induction distinct seen as with
  | case1 => rfl
  | case2 seen a as known ih => rw [ih, List.map_cons, distinct, if_pos (by simpa [unplaced] using known)]
  | case3 seen a as fresh ih =>
    rw [List.map_cons, List.map_cons, distinct, if_neg (by simpa [unplaced] using fresh), ih]
    rfl

/-- The attributes of a tag are those of what follows its name. -/
theorem map_unplaced_ofTag (raw raw' rest : Bytes) :
    (ofTag raw rest).map unplaced = (ofTag raw' rest).map unplaced := by
  rw [ofTag, ofTag, map_unplaced_distinct, map_unplaced_distinct,
    map_unplaced_readAll raw.length raw'.length]

end RawAttribute

namespace MaskedSource
section Blockless
variable {m : MaskedSource} (blockless : m.masked.blocks = []) (m' : MaskedSource)
include blockless

/-- What is read without blocks is text, and reads so whatever blocks there are. -/
theorem expand_blockless {s : Bytes} {parts : List Part} (h : m.expand s = .ok parts) :
    m'.expand s = .ok parts := by
  rw [expand, expand_eq, blockless] at h
  rw [expand, expand_eq]
  split_ifs at h ⊢ with empty
  · exact h
  · cases opened : cut? markOpen s with
    | none => simpa only [firstMark, opened] using h
    | some found =>
      -- there is no block for a mark to name, so that one that opens here is refused
      simp only [firstMark, opened] at h
      cases closed : cut? markClose found.2 with
      | none => simp [closed] at h
      | some found' =>
        simp only [closed, List.getElem?_nil] at h
        cases number : int64? found'.1 with
        | none => simp [number] at h
        | some n =>
          simp only [number] at h
          split_ifs at h

theorem attr_blockless (start' : Nat) {start : Nat} {a a' : RawAttribute} {x : Attribute}
    (same : a'.unplaced = a.unplaced) (h : m.attr start a = .ok x) :
    ∃ y, m'.attr start' a' = .ok y ∧ y.placeless = x.placeless := by
  obtain ⟨key, value, offset⟩ := a
  obtain ⟨key', value', offset'⟩ := a'
  cases same
  obtain ⟨name, named, h⟩ := exists_of_bind_ok h
  obtain ⟨valued, read, h⟩ := exists_of_bind_ok h
  cases h
  refine ⟨⟨some name, valued, m'.pos (start' + offset')⟩, ?_, rfl⟩
  have again : (value.mapM fun v => do
      return { quote := v.quote, parts := ← m'.expand (Entity.decode v.text) : AttrValue }) =
      .ok valued := by
    cases value with
    | none => exact read
    | some v =>
      obtain ⟨w, inner, read⟩ := exists_of_bind_ok read
      obtain ⟨parts, expanded, inner⟩ := exists_of_bind_ok inner
      cases inner
      cases read
      simp [expand_blockless blockless m' expanded, bind, Except.bind, pure, Except.pure]
  simp only [attr, expand_blockless blockless m' named, again]
  rfl

theorem attrs_blockless (start' : Nat) {start : Nat} {as as' : List RawAttribute} {xs : List Attribute}
    (same : as'.map RawAttribute.unplaced = as.map RawAttribute.unplaced)
    (h : as.mapM (m.attr start) = .ok xs) :
    ∃ ys, as'.mapM (m'.attr start') = .ok ys ∧ ys.map Attribute.placeless = xs.map Attribute.placeless := by
  induction as generalizing as' xs with
  | nil =>
    cases h
    cases List.map_eq_nil_iff.mp same
    exact ⟨[], rfl, rfl⟩
  | cons a as ih =>
    obtain ⟨a', as', rfl, first, later⟩ := List.map_eq_cons_iff.mp same
    rw [List.mapM_cons] at h ⊢
    obtain ⟨x, read, h⟩ := exists_of_bind_ok h
    obtain ⟨xs, others, h⟩ := exists_of_bind_ok h
    cases h
    obtain ⟨y, again, alike⟩ := attr_blockless blockless m' start' first read
    obtain ⟨ys, rest, all⟩ := ih later others
    refine ⟨y :: ys, ?_, by rw [List.map_cons, List.map_cons, alike, all]⟩
    rw [again, rest]
    rfl

end Blockless

section Renamed
variable {m : MaskedSource} {start : Nat} {name rest : Bytes} {solidus : Bool}

theorem tag_start (named : NamesTag name rest) (m : MaskedSource) (start : Nat) (solidus : Bool) :
    m.tag (lt :: (name ++ rest)) start 1 false solidus = do
      let parts ← m.expand (Bytes.lower name)
      let attrs ← (RawAttribute.ofTag (lt :: (name ++ rest)) rest).mapM (m.attr start)
      return { name := some parts, attrs := if attrs.isEmpty then none else some (attrs.map some),
               closing := false, solidus, pos := m.pos start } := by
  have body : (lt :: (name ++ rest)).drop 1 = name ++ rest := rfl
  simp only [tag, body, named.split, Bool.false_eq_true, if_false]

/-- Under another name, what follows the name is read alike. -/
theorem tag_renamed (blockless : m.masked.blocks = []) (named : NamesTag name rest) {t : Tag}
    (h : m.tag (lt :: (name ++ rest)) start 1 false solidus = .ok t) (m' : MaskedSource) (start' : Nat)
    {name' : Bytes} {parts : List Part} (named' : NamesTag name' rest)
    (read : m'.expand (Bytes.lower name') = .ok parts) :
    ∃ t', m'.tag (lt :: (name' ++ rest)) start' 1 false solidus = .ok t' ∧ t'.closing = false ∧
      t'.placeless = { t.placeless with name := some (parts.map Part.placeless) } := by
  rw [tag_start named] at h
  obtain ⟨_, -, h⟩ := exists_of_bind_ok h
  obtain ⟨xs, attrs, h⟩ := exists_of_bind_ok h
  cases h
  obtain ⟨ys, attrs', alike⟩ := attrs_blockless blockless m' start'
    (RawAttribute.map_unplaced_ofTag (lt :: (name' ++ rest)) _ rest) attrs
  refine ⟨_, by rw [tag_start named', read, attrs']; rfl, rfl, ?_⟩
  have listed (as : List Attribute) :
      (if as.isEmpty then none else some (as.map some)).map (List.map (Option.map Attribute.placeless)) =
        if (as.map Attribute.placeless).isEmpty then none
        else some ((as.map Attribute.placeless).map some) := by
    cases as <;> simp
  simp only [Tag.placeless, listed, alike, Option.map_some]

end Renamed
end MaskedSource

section Reading

theorem Document.parse_braceless {src : Bytes} {doc : Document} (braceless : lbrace ∉ src)
    (h : Document.parse .brace src = .ok doc) :
    Unreserved src ∧ MaskedSource.nodes ⟨src, src.map Piece.byte⟩ 0 (tokens src) = .ok doc.children := by
  obtain ⟨clean, m, masked, nodes⟩ := Document.parse_ok h
  rw [Masked.ofSource_ok.mpr (cut_braceless braceless)] at masked
  cases masked
  rw [Masked.text_bytes] at nodes
  exact ⟨reservedOffset?_eq_none.mp clean, nodes⟩

/-- A source that is read to one tag is that tag. -/
theorem MaskedSource.tag_of_nodes {m : MaskedSource} {name rest : Bytes} (named : NamesTag name rest)
    {t : Tag} (h : m.nodes 0 (tokens (lt :: (name ++ rest))) = .ok [.tag t]) :
    ∃ tail, tagEndSpan? false rest = some (tail, []) ∧
      m.tag (lt :: (name ++ rest)) 0 1 false tail.solidus = .ok t := by
  rw [tokens, tokensFrom, dif_neg (List.cons_ne_nil _ _)] at h
  obtain ⟨node, later, first, others, same⟩ := nodes_cons_ok h
  rw [named.firstToken] at first others
  cases span : tagEndSpan? false rest with
  | none => rw [span] at first; cases first
  | some found =>
    obtain ⟨tail, left⟩ := found
    rw [span] at first others
    obtain ⟨t', read, first⟩ := exists_of_bind_ok first
    cases first
    obtain ⟨same, none⟩ := List.cons.inj same
    cases same
    cases none
    -- whatever follows the tag is read to something
    have last : left = [] := by
      by_contra more
      exact nodes_ne_nil _ _ _ more others
    subst last
    refine ⟨tail, rfl, ?_⟩
    have whole := consumed_front (lt :: (name ++ rest)) []
    rw [List.append_nil] at whole
    rwa [whole] at read

/-- What is read of a `<`, a code and a text without braces. -/
theorem Document.parse_named {code : Code} (canonical : code.IsCanonical) {rest : Bytes}
    (braceless : lbrace ∉ rest) (unreserved : Unreserved rest) :
    Document.parse .brace (lt :: ((Part.code code).source ++ rest)) =
      (MaskedSource.nodes ⟨lt :: ((Part.code code).source ++ rest),
        .byte lt :: .block (nameBlock code rest) :: rest.map Piece.byte⟩ 0
        (tokens (lt :: ((nameBlock code rest).shown ++ rest)))).map Document.mk := by
  have clean : Unreserved (lt :: ((Part.code code).source ++ rest)) := by
    intro sub mem
    have nonempty := reserved_ne_nil sub mem
    have angle : Sealed [lt] sub := sealed_low mem (List.all_iff_forall_prop.mp (by decide))
    exact angle.append_avoids ((sealed_code mem canonical).append_avoids (unreserved sub mem) nonempty)
      nonempty
  rw [Document.parse, reservedOffset?_eq_none.mpr clean,
    Masked.ofSource_ok.mpr (cut_named canonical braceless)]
  simp only [Masked.text_cons, Masked.text_bytes, Piece.shown, List.singleton_append]

end Reading

/-- Reading `src` gives one opening tag, whose name is the code and which is like `tag` otherwise. -/
def ReadsAsTag (src : Bytes) (code : Code) (tag : Tag) : Prop :=
  ∃ t, Document.parse .brace src = .ok ⟨[.tag t]⟩ ∧ t.closing = false ∧
    t.placeless = { tag.placeless with name := some [(Part.code code).placeless] }

/-- Whatever reading `src` gives starts with a text run: a `<`, and the code. -/
def ReadsAsText (src : Bytes) (code : Code) : Prop :=
  ∀ doc, Document.parse .brace src = .ok doc →
    ∃ pos parts later, doc.children = .text (.raw [lt] :: .code { code with pos } :: parts) :: later

section Named
variable {code : Code} {rest : Bytes}

theorem mark_zero : mark 0 = [0xEE, 0x80, 0x80, 0x30, 0xEE, 0x80, 0x81] := by
  rw [mark, decimal, if_pos (by decide)]
  rfl

theorem blocks_named (code : Code) (rest : Bytes) :
    Masked.blocks (.byte lt :: .block (nameBlock code rest) :: rest.map Piece.byte) =
      [(1, nameBlock code rest)] := by
  rw [Masked.blocks, Masked.blocksFrom, Masked.blocksFrom, Masked.blocksFrom_bytes]
  · rfl
  · simp

/-- A mark behind its lead is a name, and stands for the code. -/
theorem expand_lead {src : Bytes} {offset : Nat} {b : Block} (lead : b.lead = true) :
    expand src [(offset, b)] (tagLead ++ mark 0) = .ok [.code ⟨b.kind, b.source, Pos.ofOffset src offset⟩] := by
  have opened : cut? markOpen (tagLead ++ mark 0) = some (tagLead, 0x30 :: markClose) := by
    rw [mark_zero]
    decide
  have closed : cut? markClose (0x30 :: markClose) = some ([0x30], []) := by decide
  have number : int64? [0x30] = some 0 := by decide
  have head : b.headOf tagLead = [] := by
    rw [Block.headOf, if_pos lead]
    decide
  have first : firstMark [(offset, b)] (tagLead ++ mark 0) = .block [] offset b [] := by
    simp [firstMark, opened, closed, number, head]
  rw [expand_eq, if_neg (by simp [tagLead]), first]
  simp only [expand_eq src []]
  rfl

theorem namesTag_lead {name : Bytes} (named : NamesTag name rest) : NamesTag (tagLead ++ mark 0) rest where
  letter := ⟨lowerX, mark 0, rfl, by decide⟩
  whole := by
    rw [mark_zero]
    exact List.all_iff_forall_prop.mp (by decide)
  ended := named.ended

/-- A code that the search takes for a name has the attributes that any name there has. -/
theorem readsAsTag (canonical : code.IsCanonical) {name : Bytes} (named : NamesTag name rest)
    (braceless : lbrace ∉ lt :: (name ++ rest)) {t : Tag}
    (static : Document.parse .brace (lt :: (name ++ rest)) = .ok ⟨[.tag t]⟩)
    (lead : closesTag .brace false false rest = true) :
    ReadsAsTag (lt :: ((Part.code code).source ++ rest)) code t := by
  obtain ⟨unreserved, nodes⟩ := Document.parse_braceless braceless static
  obtain ⟨tail, span, read⟩ := MaskedSource.tag_of_nodes named nodes
  have behind : rest <:+ lt :: (name ++ rest) := (List.suffix_append name rest).trans (List.suffix_cons _ _)
  have shown : (nameBlock code rest).shown = tagLead ++ mark 0 := by
    rw [Block.shown, nameBlock, lead, if_pos rfl]
  have lowered : Bytes.lower (tagLead ++ mark 0) = tagLead ++ mark 0 := by
    rw [mark_zero]
    decide
  have named' := namesTag_lead named
  have blockless : Masked.blocks ((lt :: (name ++ rest)).map Piece.byte) = [] :=
    Masked.blocksFrom_bytes 0 _
  obtain ⟨t', tagged, opening, alike⟩ := MaskedSource.tag_renamed blockless named read
    ⟨lt :: ((Part.code code).source ++ rest),
      .byte lt :: .block (nameBlock code rest) :: rest.map Piece.byte⟩ 0 named'
    (by rw [lowered, MaskedSource.expand, blocks_named]; exact expand_lead lead)
  refine ⟨t', ?_, opening, alike⟩
  rw [Document.parse_named canonical (fun mem => braceless (behind.mem mem))
    (fun sub mem => (unreserved sub mem).inside behind.isInfix), shown, named'.tokens span]
  simp only [MaskedSource.nodes, MaskedSource.node?, tagged]
  rfl

/-- A `<` before a mark without a lead starts a run of text. -/
theorem firstToken_mark (rest : Bytes) :
    firstToken none (lt :: (mark 0 ++ rest)) =
      (.text (lt :: (mark 0 ++ (textSpan rest).1)) ([lt] ++ (mark 0 ++ shownText (textSpan rest).1)),
        (textSpan rest).2) := by
  have quiet : lt ∉ mark 0 ∧ cr ∉ lt :: mark 0 ∧ amp ∉ lt :: mark 0 := by
    rw [mark_zero]
    decide
  have text : ¬markupStarts (lt :: (mark 0 ++ rest)) = true := by
    rw [mark_zero]
    exact Bool.false_ne_true
  have run : textSpan (lt :: (mark 0 ++ rest)) =
      (lt :: (mark 0 ++ (textSpan rest).1), (textSpan rest).2) := by
    rw [textSpan, if_neg text, textSpan_append_quiet quiet.1]
  have seen : shownText (lt :: (mark 0 ++ (textSpan rest).1)) =
      [lt] ++ (mark 0 ++ shownText (textSpan rest).1) := by
    rw [shownText, ← List.cons_append, unifyLines_inside quiet.2.1, Entity.decode_append quiet.2.2]
    rfl
  rw [← seen]
  simp only [firstToken, plainToken, run, List.isEmpty_cons, Bool.false_eq_true, if_false]

/-- A code that the search does not take for a name is text, and so is the `<` before it. -/
theorem readsAsText (canonical : code.IsCanonical) (braceless : lbrace ∉ rest)
    (unreserved : Unreserved rest) (apart : closesTag .brace false false rest = false) :
    ReadsAsText (lt :: ((Part.code code).source ++ rest)) code := by
  have shown : (nameBlock code rest).shown = mark 0 := by
    rw [Block.shown, nameBlock, apart]
    rfl
  have marked : firstMark [(1, nameBlock code rest)] ([lt] ++ (mark 0 ++ shownText (textSpan rest).1)) =
      .block [lt] 1 (nameBlock code rest) (shownText (textSpan rest).1) :=
    firstMark_next (by decide) (by decide) rfl apart _
  intro doc parsed
  rw [Document.parse_named canonical braceless unreserved, shown, tokens, tokensFrom,
    dif_neg (List.cons_ne_nil _ _)] at parsed
  simp only [firstToken_mark] at parsed
  obtain ⟨ns, nodes, rfl⟩ := exists_of_map_ok parsed
  obtain ⟨node, later, read, -, rfl⟩ := MaskedSource.nodes_cons_ok nodes
  obtain ⟨parts, expanded, read⟩ := exists_of_bind_ok read
  rw [MaskedSource.expand, blocks_named, expand_eq, if_neg (by simp)] at expanded
  simp only [marked] at expanded
  obtain ⟨more, -, rfl⟩ := exists_of_map_ok expanded
  cases read
  exact ⟨_, more, later, rfl⟩

end Named

section Attributes
open TagState

theorem namesTag_div {attributes : Bytes}
    (starts : (attributes.head?.all fun b => isTagSpace b || b == slash) = true) :
    NamesTag (utf8 "div") (attributes ++ [gt]) where
  letter := ⟨0x64, [0x69, 0x76], rfl, by decide⟩
  whole := List.all_iff_forall_prop.mp (by decide)
  ended := by
    cases attributes with
    | nil => exact ⟨gt, [], rfl, by decide⟩
    | cons b bs =>
      have apart : (isTagSpace b || b == slash) = true := starts
      exact ⟨b, bs ++ [gt], rfl, by rw [endsName, apart]; rfl⟩

/-- A tag with its name and its attributes as written. -/
def tagText (name attributes : Bytes) : Bytes := utf8 "<" ++ (name ++ (attributes ++ utf8 ">"))

/-- A tag that takes its name from code takes the attributes that a tag of any name takes, if each `<`
in them stands in a quoted value, and is text if not. That is so as long as the search for the end of
the tag passes over the quoted values and nothing else; at any rate it is one of the two. -/
theorem dynamic_name_takes_attributes {code : Code} (canonical : code.IsCanonical) {attributes : Bytes}
    (starts : (attributes.head?.all fun b => isTagSpace b || b == slash) = true)
    (braceless : lbrace ∉ attributes) {tag : Tag}
    (static : Document.parse .brace (tagText (utf8 "div") attributes) = .ok ⟨[.tag tag]⟩) :
    (EveryByte InStep [] attributes →
      (EveryByte Covered [] attributes →
        ReadsAsTag (tagText (Part.code code).source attributes) code tag) ∧
      (¬EveryByte Covered [] attributes →
        ReadsAsText (tagText (Part.code code).source attributes) code)) ∧
    (ReadsAsTag (tagText (Part.code code).source attributes) code tag ∨
      ReadsAsText (tagText (Part.code code).source attributes) code) := by
  have named := namesTag_div starts
  have plain : lbrace ∉ attributes ++ [gt] := by simpa using ⟨braceless, by decide⟩
  have whole : lbrace ∉ lt :: (utf8 "div" ++ (attributes ++ [gt])) := by
    simpa using ⟨by decide, by decide, braceless, by decide⟩
  obtain ⟨unreserved, nodes⟩ := Document.parse_braceless whole static
  obtain ⟨tail, span, -⟩ := MaskedSource.tag_of_nodes named nodes
  have behind : Unreserved (attributes ++ [gt]) := fun sub mem =>
    (unreserved sub mem).inside ((List.suffix_append _ _).trans (List.suffix_cons _ _)).isInfix
  have isTag := readsAsTag canonical named whole static
  have isText := readsAsText canonical plain behind
  refine ⟨fun inStep => ?_, ?_⟩
  · have found := closesTag_iff braceless span inStep
    refine ⟨fun covered => isTag (found.mpr covered), fun uncovered => isText ?_⟩
    rw [← Bool.not_eq_true, found]
    exact uncovered
  · cases search : closesTag .brace false false (attributes ++ [gt]) with
    | true => exact .inl (isTag search)
    | false => exact .inr (isText search)

/-- The tag that is all a source is read to. -/
def soleTag? : Except Failure Document → Option Tag
  | .ok ⟨[.tag t]⟩ => some t
  | _ => none

theorem eq_of_soleTag? {r : Except Failure Document} {t : Tag} (h : soleTag? r = some t) :
    r = .ok ⟨[.tag t]⟩ := by
  unfold soleTag? at h
  split at h <;> simp_all

/-- A code that names a tag. -/
def nameCode : Code := ⟨.expression, utf8 "t", {}⟩

/-- A `<` and an even number of backslashes in one value, a `>` and a quote in another, and slashes. -/
def coveredAttributes : Bytes := utf8 " a=\"<b\\\\\" c = '>\"' D/E /"

theorem dynamic_name_takes_covered_attributes :
    ∃ tag, Document.parse .brace (tagText (utf8 "div") coveredAttributes) = .ok ⟨[.tag tag]⟩ ∧
      tag.solidus = true ∧ tag.attributes.map Attribute.source = [utf8 "a", utf8 "c", utf8 "d", utf8 "e"] ∧
      ReadsAsTag (tagText (utf8 "\x7b=t\x7d") coveredAttributes) nameCode tag := by
  have read : (soleTag? (Document.parse .brace (tagText (utf8 "div") coveredAttributes))).any
      (fun tag => tag.solidus ∧
        tag.attributes.map Attribute.source = [utf8 "a", utf8 "c", utf8 "d", utf8 "e"]) = true := by
    decide +kernel
  obtain ⟨tag, sole, named⟩ := (Option.any_eq_true _ _).mp read
  obtain ⟨solidus, names⟩ := of_decide_eq_true named
  have static := eq_of_soleTag? sole
  have taken := dynamic_name_takes_attributes (show nameCode.IsCanonical by decide +kernel) (by decide)
    (by decide) static
  exact ⟨tag, static, solidus, names, (taken.1 (by decide)).1 (by decide)⟩

/-- Attributes that a tag loses with its name as code: a `<` stands in a value without quotes, a
backslash ends a quoted value, and a quote stands behind the equals sign of a key. -/
def strayAttributes : List Bytes := [utf8 " a=b<c", utf8 " a=\"\\\"", utf8 " =\"a"]

theorem dynamic_name_loses_attributes :
    (strayAttributes.all fun attributes =>
      (soleTag? (Document.parse .brace (tagText (utf8 "div") attributes))).isSome) = true ∧
    (strayAttributes.any fun attributes =>
      (soleTag? (Document.parse .brace (tagText (utf8 "\x7b=t\x7d") attributes))).isSome) = false := by
  decide +kernel

end Attributes

end DomTemplate
