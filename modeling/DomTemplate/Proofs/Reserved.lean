import DomTemplate.Proofs.Segments

/-! Where the reserved characters of marks come to light. A template is free of them, and where no
character reference writes one, the marks are all there is of them in the masked text. What a node
shows is cut out of that text between pieces. In names, values and texts the marks become code, and
in a comment they become the blocks as written. A doctype keeps its marks: it is the one kind of
node that shows them, and it does so exactly if a block stands in it. -/

namespace DomTemplate
open Ascii Bytes Markup

namespace Markup

/-- `t` stands in `raw` behind an opener and before a closer. Neither holds a mark, and no piece and
no character reference reaches from one of the three into the next. -/
structure Wraps (raw t opener closer : Bytes) : Prop where
  split : raw = opener ++ (t ++ closer)
  opens : ∀ b ∈ opener, b ≠ 0xEE
  closes : ∀ b ∈ closer, b ≠ 0xEE
  before : Joint opener (t ++ closer)
  behind : Joint t closer
  ends : Ends t closer

/-- A byte that is joined to no byte after it. -/
def isLoose (b : UInt8) : Bool := b != lt && b != lowerX && !isMarkByte b

theorem joint_loose {a : UInt8} {u : Bytes} (loose : ∀ b ∈ u, isLoose b = true) (nonempty : u ≠ [])
    (v : Bytes) : Joint (a :: u) v := by
  intro b c last _
  rw [List.getLast?_cons_of_ne_nil nonempty] at last
  have outside := loose b (List.mem_of_getLast? last)
  simp only [isLoose, Bool.and_eq_true, bne_iff_ne, Bool.not_eq_true'] at outside
  simp [joins, outside]

theorem loose_spares (b : UInt8) : isLoose b = true → b ≠ 0xEE := by
  revert b
  exact forall_byte (by decide +kernel)

/-- What a declaration or a comment takes of a text that closes. -/
theorem Closes.wraps {body text rest closer opener : Bytes} (h : Closes body text rest closer)
    (opens : ∀ b ∈ opener, b ≠ 0xEE) (before : Joint opener (text ++ closer)) :
    Wraps (consumed (opener ++ body) rest) text opener closer := by
  have outside : ∀ b, inCommentEnd b = true →
      (b == percent) = false ∧ isMarkByte b = false ∧ b ≠ 0xEE := forall_byte (by decide +kernel)
  refine ⟨?_, opens, fun b mem => (outside b (h.ends b mem)).2.2, before, fun a b _ head => ?_,
    .inl fun b head => inCommentEnd_boundary b (h.ends b (List.mem_of_mem_head? head))⟩
  · have whole : opener ++ body = opener ++ (text ++ closer) ++ rest := by simp [h.split]
    rw [whole, consumed_front]
  · have ends := outside b (h.ends b (List.mem_of_mem_head? head))
    simp [joins, ends]

/-- The text of a comment or a doctype stands between an opener and a closer. -/
def Token.Wrapped : Token → Prop
  | .comment raw shown => ∃ t opener closer, Wraps raw t opener closer ∧ shown = shownComment t
  | .doctype raw shown => ∃ t opener closer, Wraps raw t opener closer ∧ shown = shownText t
  | .text .. | .startTag .. | .endTag _ | .unfinished _ => True

/-- What is read behind a `<` and loose bytes. -/
theorem Closes.wraps_loose {body text rest closer u : Bytes} (h : Closes body text rest closer)
    (loose : ∀ b ∈ u, isLoose b = true) (nonempty : u ≠ []) :
    Wraps (consumed (lt :: (u ++ body)) rest) text (lt :: u) closer :=
  h.wraps (List.forall_mem_cons.mpr ⟨by decide, fun b mem => loose_spares b (loose b mem)⟩)
    (joint_loose loose nonempty _)

theorem loose_slash : ∀ b ∈ [slash], isLoose b = true := List.forall_mem_singleton.mpr (by decide)

theorem loose_bang : ∀ b ∈ [bang], isLoose b = true := List.forall_mem_singleton.mpr (by decide)

theorem wrapped_closing (body : Bytes) : (closingToken (lt :: slash :: body) body).1.Wrapped := by
  cases body with
  | nil => exact trivial
  | cons c cs =>
    rw [closingToken]
    split_ifs with empty letter
    · have closes : Closes (c :: cs) [] cs [c] :=
        ⟨rfl, List.forall_mem_singleton.mpr (empty ▸ by decide), by simp⟩
      exact ⟨_, _, _, closes.wraps_loose loose_slash (by simp), rfl⟩
    · cases tagSpan? (c :: cs) <;> exact trivial
    · obtain ⟨closer, closes⟩ := closes_angleSpan (c :: cs)
      exact ⟨_, _, _, closes.wraps_loose loose_slash (by simp), rfl⟩

theorem loose_doctype {s : Bytes} (h : ∀ b ∈ Bytes.lower s, b ∈ doctypeWord) :
    ∀ b ∈ s, isLoose b = true := by
  have letters : ∀ b, Ascii.lower b ∈ doctypeWord → isLoose b = true :=
    forall_byte (by decide +kernel)
  exact fun b mem => letters b (h _ (List.mem_map_of_mem mem))

theorem wrapped_declaration (body : Bytes) :
    (declarationToken (lt :: bang :: body) body).1.Wrapped := by
  rw [declarationToken, declarationSpan]
  by_cases short : body.length < 2
  · rw [if_pos short]
    have closes : Closes body body [] [] := ⟨by simp, by simp, fun _ => rfl⟩
    exact ⟨_, _, _, closes.wraps_loose loose_bang (by simp), rfl⟩
  rw [if_neg short]
  by_cases comment : (utf8 "--").isPrefixOf body = true
  · rw [if_pos comment]
    obtain ⟨rest, rfl⟩ := List.isPrefixOf_iff_prefix.mp comment
    obtain ⟨closer, closes⟩ := closes_comment rest
    have dashes : utf8 "--" = [dash, dash] := by decide +kernel
    have loose : ∀ b ∈ [bang, dash, dash], isLoose b = true := by decide +kernel
    rw [dashes]
    exact ⟨_, _, _, closes.wraps_loose loose (by simp), rfl⟩
  rw [if_neg comment]
  by_cases doctype : startsWithFold body doctypeWord = true
  · rw [if_pos doctype]
    -- the opener goes on to the white space behind the word
    have folded : Bytes.lower doctypeWord = doctypeWord := by decide +kernel
    rw [startsWithFold, startsWith, folded] at doctype
    obtain ⟨more, split⟩ := List.isPrefixOf_iff_prefix.mp doctype
    have word : Bytes.lower (body.take doctypeWord.length) = doctypeWord := by
      rw [Bytes.lower, List.map_take, ← Bytes.lower, ← split, List.take_left]
    have loose : ∀ b ∈ bang :: (body.take doctypeWord.length ++
        (body.drop doctypeWord.length).takeWhile isTagSpace), isLoose b = true := by
      have spaces : ∀ b, isTagSpace b = true → isLoose b = true := forall_byte (by decide +kernel)
      rw [List.forall_mem_cons, List.forall_mem_append]
      exact ⟨by decide, loose_doctype (word.symm ▸ fun b mem => mem),
        fun b mem => spaces b (List.mem_takeWhile_imp mem)⟩
    obtain ⟨closer, closes⟩ :=
      closes_angleSpan ((body.drop doctypeWord.length).dropWhile isTagSpace)
    have wraps := closes.wraps_loose loose (by simp)
    rw [List.cons_append, List.append_assoc, List.takeWhile_append_dropWhile,
      List.take_append_drop] at wraps
    exact ⟨_, _, _, wraps, rfl⟩
  rw [if_neg doctype]
  by_cases cutOff : startsWith doctypeWord (Bytes.lower body) = true
  · rw [if_pos cutOff]
    have loose : ∀ b ∈ bang :: body, isLoose b = true := by
      have letters := (List.isPrefixOf_iff_prefix.mp cutOff).subset
      exact List.forall_mem_cons.mpr ⟨by decide, loose_doctype letters⟩
    have closes : Closes [] [] [] [] := ⟨rfl, by simp, fun _ => rfl⟩
    have wraps := closes.wraps_loose loose (by simp)
    rw [List.append_nil] at wraps
    exact ⟨_, _, _, wraps, rfl⟩
  · rw [if_neg cutOff]
    obtain ⟨closer, closes⟩ := closes_angleSpan body
    exact ⟨_, _, _, closes.wraps_loose loose_bang (by simp), rfl⟩

theorem wrapped_markupToken {s : Bytes} (starts : markupStarts s = true) :
    (markupToken s).1.Wrapped := by
  rcases s with _ | ⟨a, _ | ⟨b, body⟩⟩
  · cases starts
  · cases starts
  obtain rfl := head_of_markupStarts starts
  have second : isLetter b = true ∨ b = slash ∨ b = bang ∨ b = question := by
    simpa [markupStarts, or_assoc] using starts
  rw [markupToken]
  split_ifs with letter closing declared
  · rw [startTagToken]
    cases tagSpan? (b :: body) <;> exact trivial
  · exact closing ▸ wrapped_closing body
  · exact declared ▸ wrapped_declaration body
  · -- the comment holds its question mark, and only the `<` opens it
    obtain rfl : b = question := by simpa [letter, closing, declared] using second
    obtain ⟨closer, closes⟩ := closes_angleSpan (question :: body)
    have joint : Joint [lt] ((angleSpan (question :: body)).1 ++ closer) := by
      rintro a c ⟨⟩ ⟨⟩
      decide
    exact ⟨_, [lt], closer, closes.wraps (by simp [lt]) joint, rfl⟩

theorem wrapped_firstToken {inside : Option RawElement} {s : Bytes} (nonempty : s ≠ []) :
    (firstToken inside s).1.Wrapped := by
  have plain : (plainToken s).1.Wrapped := by
    rw [plainToken]
    split
    · rename_i empty
      refine wrapped_markupToken ?_
      obtain ⟨c, cs, rfl⟩ := List.exists_cons_of_ne_nil nonempty
      by_contra text
      rw [textSpan, if_neg text] at empty
      cases empty
    · exact trivial
  unfold firstToken
  split
  · split
    · exact plain
    · exact trivial
  · exact plain

theorem slice_raw {raw rest s : Bytes} (whole : raw ++ rest = s) (parted : Parted raw rest) :
    Slice raw s := by
  refine ⟨[], rest, by simp [whole], ?_⟩
  rcases parted with rfl | starts | ends
  · exact .inl (by simp)
  · exact .inl (by simp [starts, isBoundary]; decide)
  · exact .inr ⟨gt, ends, by decide⟩

/-- Every token is a slice of the text, and the text of a comment or a doctype is wrapped in it. -/
theorem wrapped_tokensFrom (inside : Option RawElement) (s : Bytes) :
    ∀ t ∈ tokensFrom inside s, t.Wrapped ∧ Slice t.raw s := by
  fun_induction tokensFrom inside s with
  | case1 => simp
  | case2 inside s nonempty shorter ih =>
    have whole := (firstToken_reads inside s).1
    refine List.forall_mem_cons.mpr ⟨⟨wrapped_firstToken nonempty,
      slice_raw whole (firstToken_parted inside s)⟩, fun t mem => ?_⟩
    obtain ⟨wrapped, slice⟩ := ih t mem
    exact ⟨wrapped, slice.of_suffix_right ⟨_, whole⟩⟩

theorem Wraps.slice {raw t opener closer : Bytes} (h : Wraps raw t opener closer) : Slice t raw :=
  ⟨opener, closer, by rw [h.split, List.append_assoc], h.ends⟩

/-- The pieces between the opener and the closer. -/
theorem Wraps.pieces {raw t opener closer : Bytes} (h : Wraps raw t opener closer) {ps : Masked}
    (firm : ∀ p ∈ ps, p.IsFirm) (whole : ps.text = raw) :
    ∃ head inner tail : Masked, ps = head ++ (inner ++ tail) ∧ inner.text = t ∧
      (∀ b ∈ head.text, b ≠ 0xEE) ∧ ∀ b ∈ tail.text, b ≠ 0xEE := by
  obtain ⟨head, rest, rfl, opens, text⟩ := Masked.exists_split firm (whole.trans h.split) h.before
  obtain ⟨inner, tail, rfl, shown, closes⟩ := Masked.exists_split
    (fun p mem => firm p (List.mem_append_right _ mem)) text h.behind
  exact ⟨head, inner, tail, rfl, shown, opens ▸ h.opens, closes ▸ h.closes⟩

end Markup

section Named
variable {d : Delimiters} {state : MaskState} {context : BraceContext} {s : Bytes} {m : Masked}

/-- The bytes with which a piece that is no copied byte is written or shown. -/
def pieceHeads : Bytes := [backslash, lbrace, lt, lowerX, 0xEE]

/-- The first piece is a copied byte, or one of the others. A lead follows the start of a tag. -/
theorem Cut.first_cases (cut : Cut d state context s m) :
    (s = [] ∧ m = []) ∨
      (∃ c rest later state' context', s = c :: rest ∧ m = .byte c :: later ∧
        state'.before = c :: state.before ∧ Cut d state' context' rest later) ∨
      ∃ a as b bs, m.text = a :: as ∧ s = b :: bs ∧ a ∈ pieceHeads ∧ b ∈ pieceHeads ∧ b ≠ lowerX ∧
        (a = lowerX → endsInTagOpen state.before = true) := by
  have unled {a : UInt8} (other : a ≠ lowerX) : a = lowerX → endsInTagOpen state.before = true :=
    fun same => absurd same other
  cases cut with
  | nil => exact .inl ⟨rfl, rfl⟩
  | byte plain after => exact .inr (.inl ⟨_, _, _, _, _, rfl, rfl, rfl, after⟩)
  | escape after =>
    refine .inr (.inr ?_)
    rw [Masked.text_cons]
    cases d <;> exact ⟨_, _, _, _, rfl, rfl, by decide, by decide, by decide, unled (by decide)⟩
  | @block state context inner written rest m encloses nonempty allowed after =>
    refine .inr (.inr ?_)
    have starts : ∃ b bs, written ++ rest = b :: bs ∧ b ∈ pieceHeads ∧ b ≠ lowerX := by
      cases d <;> exact ⟨_, _, congrArg (· ++ rest) encloses.1, by decide, by decide⟩
    obtain ⟨b, bs, split, opens, other⟩ := starts
    rw [split, Masked.text_cons, Piece.shown, Block.shown]
    cases lead : (state.block d inner written rest).lead with
    | false => exact ⟨_, _, b, bs, rfl, rfl, by decide, opens, other, unled (by decide)⟩
    | true =>
      rw [MaskState.block, Bool.and_eq_true] at lead
      exact ⟨_, _, b, bs, rfl, rfl, by decide, opens, other, fun _ => lead.1⟩

/-- A number is read from the masked text as from the source. -/
theorem Cut.number_text {digit? : UInt8 → Option Nat} (outside : ∀ b ∈ pieceHeads, digit? b = none)
    (cut : Cut d state context s m) (base value : Nat) :
    (Entity.number digit? base value m.text).1 = (Entity.number digit? base value s).1 := by
  induction m generalizing state context s value with
  | nil =>
    rcases cut.first_cases with ⟨rfl, -⟩ | ⟨_, _, _, _, _, -, shape, -⟩ | ⟨_, _, _, _, shape, -⟩
    · rfl
    · cases shape
    · cases shape
  | cons p m ih =>
    rcases cut.first_cases with ⟨-, shape⟩ |
      ⟨c, rest, later, state', context', rfl, same, -, after⟩ |
      ⟨a, as, b, bs, shown, rfl, first, second, -⟩
    · cases shape
    · cases same
      rw [Masked.text_cons, Piece.shown, List.singleton_append, Entity.number, Entity.number]
      cases digit? c with
      | none => rfl
      | some n => exact ih after _
    · rw [shown, Entity.number, Entity.number, outside a first, outside b second]

/-- A reference is to the same character in the masked text as in the source. -/
theorem Cut.referenceNumber_text (cut : Cut d state context s m) :
    Entity.referenceNumber m.text = Entity.referenceNumber s := by
  have heads : ∀ b ∈ pieceHeads, Entity.decimalDigit? b = none ∧ hexValue? b = none ∧ b ≠ sharp ∧
      (b ≠ lowerX → lower b ≠ lowerX) := by decide +kernel
  have decimal := fun b mem => (heads b mem).1
  have hex := fun b mem => (heads b mem).2.1
  rcases cut.first_cases with ⟨rfl, rfl⟩ |
    ⟨c, rest, later, state', context', rfl, rfl, behind, after⟩ |
    ⟨a, as, b, bs, shown, rfl, first, second, -⟩
  · rfl
  · rw [Masked.text_cons, Piece.shown, List.singleton_append]
    by_cases numeric : c = sharp
    · have digits := after.number_text decimal 10 0
      rcases after.first_cases with ⟨rfl, rfl⟩ | ⟨b, rest, later, _, _, rfl, rfl, -, behind⟩ |
        ⟨a, as, b, bs, shown, rfl, first, second, other, lead⟩
      · rfl
      · rw [Masked.text_cons, Piece.shown, List.singleton_append] at digits ⊢
        rw [Entity.referenceNumber, Entity.referenceNumber, digits, behind.number_text hex]
      · -- no lead stands behind a number sign
        have plain : a ≠ lowerX := by
          intro same
          have closed (before : Bytes) : endsInTagOpen (sharp :: before) = false := by
            cases before <;> rfl
          have opens := lead same
          rw [behind, numeric, closed] at opens
          cases opens
        rw [shown] at digits ⊢
        rw [Entity.referenceNumber, Entity.referenceNumber, if_neg ((heads a first).2.2.2 plain),
          if_neg ((heads b second).2.2.2 other), digits]
    · rw [Entity.referenceNumber_cons numeric, Entity.referenceNumber_cons numeric]
  · rw [shown, Entity.referenceNumber_cons (heads a first).2.2.1,
      Entity.referenceNumber_cons (heads b second).2.2.1]

/-- Masking brings in no reference. -/
theorem Cut.refersTo_text {k : CodePoint} (cut : Cut d state context s m)
    (clean : Entity.refersTo k s = false) : Entity.refersTo k m.text = false := by
  induction cut with
  | nil => rfl
  | escape after ih =>
    rw [Masked.text_cons, Entity.refersTo_append (by cases d <;> decide)]
    exact ih (Entity.refersTo_suffix clean (List.suffix_append _ _))
  | @block state context inner written rest m encloses nonempty allowed after ih =>
    have absent : amp ∉ (state.block d inner written rest).shown := by
      rw [Block.shown, List.mem_append, not_or]
      refine ⟨by split <;> decide, fun mem => ?_⟩
      exact absurd (isMarkByte_mark _ amp mem) (by decide)
    rw [Masked.text_cons, Piece.shown, Entity.refersTo_append absent]
    exact ih (Entity.refersTo_suffix clean (List.suffix_append _ _))
  | byte plain after ih =>
    rw [Masked.text_cons, Piece.shown, List.singleton_append]
    rw [Entity.refersTo, Bool.or_eq_false_iff] at clean ⊢
    rw [after.referenceNumber_text]
    exact ⟨clean.1, ih clean.2⟩

end Named

/-- The texts `ts` stand in a text one behind the other, and what is between them holds no reserved
character. -/
inductive Woven : Bytes → List Bytes → Prop where
  | last {gap : Bytes} (plain : Unreserved gap) : Woven gap []
  | next {gap t rest : Bytes} {ts : List Bytes} (plain : Unreserved gap) (later : Woven rest ts) :
      Woven (gap ++ (t ++ rest)) (t :: ts)

section Weaving
variable {s : Bytes} {ks : List Nat}

/-- A marked text is a gap, or a gap, a mark and a marked text. -/
theorem Marked.gap (h : Marked reserved s ks) :
    (ks = [] ∧ Unreserved s) ∨ ∃ k ks' gap rest, ks = k :: ks' ∧
      s = gap ++ (DomTemplate.mark k ++ rest) ∧ Unreserved gap ∧ Marked reserved rest ks' := by
  rcases h.cut? charset_reserved with ⟨none, -, plain⟩ |
    ⟨k, ks', gap, rest, same, later, found, plain⟩
  · exact .inl ⟨none, plain⟩
  · refine .inr ⟨k, ks', gap, rest, same, ?_, plain, later⟩
    rw [(cut?_spec (by decide) found).1, DomTemplate.mark]
    simp only [List.append_assoc]

theorem Marked.woven (h : Marked reserved s ks) : Woven s (ks.map DomTemplate.mark) := by
  induction ks generalizing s with
  | nil =>
    rcases h.gap with ⟨-, plain⟩ | ⟨_, _, _, _, same, -⟩
    · exact .last plain
    · cases same
  | cons k ks ih =>
    rcases h.gap with ⟨none, -⟩ | ⟨k', ks', gap, rest, same, rfl, plain, later⟩
    · cases none
    · obtain ⟨rfl, rfl⟩ := List.cons.inj same
      exact .next plain (ih later)

/-- A text with marks in it shows reserved characters. -/
theorem Woven.unreserved_iff (h : Woven s (ks.map mark)) : Unreserved s ↔ ks = [] := by
  cases ks with
  | nil =>
    cases h with
    | last plain => exact iff_of_true plain rfl
  | cons k ks =>
    cases h with
    | next plain later =>
      refine iff_of_false (fun clean => clean markOpen (by decide) ?_) (List.cons_ne_nil _ _)
      rw [mark]
      simp only [List.append_assoc]
      exact List.infix_append' ..

/-- With its marks undone, a text shows the blocks as they are written. -/
theorem Marked.unmask {blocks es : List (Nat × Block)} (few : blocks.length ≤ signedLimit)
    (known : ∀ e ∈ es, blocks[e.2.number]? = some e)
    (h : Marked reserved s (es.map (·.2.number))) :
    ∃ text, DomTemplate.unmask blocks s = .ok text ∧ Woven text (es.map (·.2.written)) := by
  induction es generalizing s with
  | nil =>
    rcases h.gap with ⟨-, plain⟩ | ⟨_, _, _, _, same, -⟩
    · refine ⟨s, ?_, .last plain⟩
      rw [unmask_eq, firstMark, cut?_of_avoids (by decide) (plain markOpen (by decide))]
    · cases same
  | cons e es ih =>
    rw [List.forall_mem_cons] at known
    rcases h.gap with ⟨none, -⟩ | ⟨k, ks, gap, rest, same, rfl, plain, later⟩
    · cases none
    obtain ⟨rfl, rfl⟩ := List.cons.inj same
    obtain ⟨tail, restored, woven⟩ := ih known.2 later
    have small : e.2.number < signedLimit :=
      Nat.lt_of_lt_of_le (List.getElem?_eq_some_iff.mp known.1).1 few
    have first := firstMark_mark (plain markOpen (by decide)) small known.1 rest
    refine ⟨e.2.headOf gap ++ (e.2.written ++ tail), ?_, .next (fun sub mem => ?_) woven⟩
    · rw [unmask_eq, first]
      simp only [restored]
      simp [Except.map]
    · exact (plain sub mem).inside (e.2.headOf_starts gap).isInfix

/-- Woven texts that neither begin nor end within a reserved character bring none in. -/
theorem Woven.unreserved {ts : List Bytes} (h : Woven s ts)
    (each : ∀ t ∈ ts, ∀ sub ∈ reserved, Sealed t sub ∧ ∃ c u, t = c :: u ∧ c ∉ sub) :
    Unreserved s := by
  induction h with
  | last plain => exact plain
  | next plain later ih =>
    rw [List.forall_mem_cons] at each
    intro sub mem
    have nonempty := reserved_ne_nil sub mem
    obtain ⟨closed, c, u, rfl, outside⟩ := each.1 sub mem
    refine (plain sub mem).append (closed.append_avoids (ih each.2 sub mem) nonempty) nonempty ?_
    rintro _ ⟨⟩
    exact outside

end Weaving

theorem Bytes.trimPrefix_ends (p s : Bytes) : trimPrefix p s <:+ s := by
  rw [trimPrefix]
  cases dropped : dropPrefix? p s with
  | none => exact List.suffix_rfl
  | some rest =>
    rw [dropPrefix?_eq_some.mp dropped]
    exact List.suffix_append _ _

section Blocks
variable {d : Delimiters} {state : MaskState} {context : BraceContext} {s : Bytes} {m : Masked}

theorem Delimiters.Encloses.between {inner written : Bytes} (h : d.Encloses inner written) :
    ∃ a opener closer z, written = a :: (opener ++ (inner ++ (closer ++ [z]))) ∧
      a < 0x80 ∧ z < 0x80 := by
  cases d with
  | brace => exact ⟨lbrace, [], [], rbrace, h.1, by decide, by decide⟩
  | erb =>
    have delimiters : erbOpen = [lt, percent] ∧ erbClose = [percent, gt] := by decide +kernel
    refine ⟨lt, [percent], [percent], gt, ?_, by decide, by decide⟩
    rw [h.1, delimiters.1, delimiters.2]
    simp

/-- The code of a block lies between its delimiters. -/
theorem Delimiters.codeOf_infix (d : Delimiters) (inner : Bytes) :
    (d.codeOf inner).2 <:+: inner := by
  cases d with
  | brace =>
    rw [codeOf, braceCode.eq_def]
    split
    · split
      · exact (List.suffix_cons _ _).isInfix
      · exact List.infix_rfl
    · exact List.nil_infix
  | erb =>
    have trimmed : trimSuffix [dash] (trimPrefix [dash] inner) <:+: inner :=
      (trimSuffix_starts _ _).isInfix.trans (trimPrefix_ends _ _).isInfix
    rw [codeOf, erbCode]
    split
    · rename_i c cs same
      rw [same] at trimmed
      have rest : cs <:+: inner := (List.suffix_cons _ _).isInfix.trans trimmed
      split_ifs
      · exact rest
      · exact rest
      · exact trimmed
    · exact List.nil_infix

theorem Cut.written_infix (cut : Cut d state context s m) {b : Block} (mem : .block b ∈ m) :
    b.written <:+: s := by
  obtain ⟨front, back, rfl⟩ := List.append_of_mem mem
  rw [← cut.source_eq, Masked.source_append, Masked.source_cons]
  exact List.infix_append' ..

theorem Cut.unreserved_code (cut : Cut d state context s m) (clean : Unreserved s) {b : Block}
    (mem : .block b ∈ m) : Unreserved b.source := by
  obtain ⟨inner, encloses, -, source⟩ := cut.encloses mem
  obtain ⟨a, opener, closer, z, written, -⟩ := encloses.between
  have inside : inner <:+: b.written := ⟨a :: opener, closer ++ [z], by simp [written]⟩
  have code : b.source <:+: inner := source ▸ (isInfix_trim _).trans (d.codeOf_infix inner)
  exact fun sub reserved => (clean sub reserved).inside
    ((code.trans inside).trans (cut.written_infix mem))

/-- A block as written begins and ends with bytes of its delimiters. -/
theorem Cut.sealed_written (cut : Cut d state context s m) (clean : Unreserved s) {b : Block}
    (mem : .block b ∈ m) :
    ∀ sub ∈ reserved, Sealed b.written sub ∧ ∃ c u, b.written = c :: u ∧ c ∉ sub := by
  intro sub inside
  have avoids := (clean sub inside).inside (cut.written_infix mem)
  obtain ⟨inner, encloses, -⟩ := cut.encloses mem
  obtain ⟨a, opener, closer, z, written, first, last⟩ := encloses.between
  have ends : b.written.getLast? = some z := by
    rw [written]
    simp [List.getLast?_cons]
  exact ⟨⟨avoids, closed_of_last ends (low_not_mem inside last)⟩,
    a, _, written, low_not_mem inside first⟩

end Blocks

namespace Masked
variable {m : Masked}

def codeBlocks (m : Masked) : List Block := m.filterMap Piece.block?

theorem map_blocksFrom (m : Masked) (start : Nat) :
    (m.blocksFrom start).map (·.2) = m.codeBlocks := by
  induction m generalizing start with
  | nil => rfl
  | cons p m ih =>
    rw [blocksFrom_cons, List.map_append, ih]
    cases p <;> rfl

theorem codeBlocks_plain (plain : ∀ b ∈ m.text, b ≠ 0xEE) : m.codeBlocks = [] := by
  rw [← m.map_blocksFrom 0, blocksFrom_plain plain, List.map_nil]

/-- The blocks of pieces are those between two ends without marks. -/
theorem codeBlocks_between {head inner tail : Masked} (before : ∀ b ∈ head.text, b ≠ 0xEE)
    (behind : ∀ b ∈ tail.text, b ≠ 0xEE) :
    codeBlocks (head ++ (inner ++ tail)) = inner.codeBlocks := by
  rw [codeBlocks, List.filterMap_append, List.filterMap_append, ← codeBlocks, ← codeBlocks,
    ← codeBlocks, codeBlocks_plain before, codeBlocks_plain behind, List.nil_append,
    List.append_nil]

/-- `s` is the text of some of the pieces. -/
def Holds (m : Masked) (s : Bytes) : Prop :=
  ∃ front ps back : Masked, m = front ++ (ps ++ back) ∧ ps.text = s

theorem Holds.mono {m' front back : Masked} {s : Bytes} (h : m'.Holds s)
    (split : m = front ++ (m' ++ back)) : m.Holds s := by
  obtain ⟨before, ps, behind, rfl, text⟩ := h
  exact ⟨front ++ before, ps, behind ++ back, by simp [split], text⟩

end Masked

/-- The keys and the values of a tag are texts of pieces. -/
theorem Markup.Attributed.holds {size : Nat} {ps : Masked} {as : List RawAttribute}
    (h : Attributed size ps as) :
    ∀ a ∈ as, ps.Holds a.key ∧ ∀ v, a.value = some v → ps.Holds v.text := by
  induction h with
  | close => exact nofun
  | @attr gap key within value behind rest a as _ named _ valued _ _ _ ih =>
    refine List.forall_mem_cons.mpr
      ⟨⟨⟨gap, key, _, rfl, named⟩, fun v same => ?_⟩, fun a' mem => ?_⟩
    · refine ⟨gap ++ (key ++ within), value, behind ++ rest, by simp, ?_⟩
      rw [valued, same]
      rfl
    · have later : gap ++ (key ++ (within ++ (value ++ (behind ++ rest)))) =
          gap ++ (key ++ (within ++ (value ++ behind))) ++ (rest ++ []) := by simp
      obtain ⟨named, valued⟩ := ih a' mem
      exact ⟨named.mono later, fun v same => (valued v same).mono later⟩

def Part.IsUnreserved : Part → Prop
  | raw value => Unreserved value
  | code block => Unreserved block.source
  | absent | misplaced _ => True

/-- What a node that was read from the pieces `ps` shows of the reserved characters and of the
blocks among the pieces. Comments show blocks as written, and doctypes show their marks. -/
def Node.Shows (ps : Masked) : Node → Prop
  | comment shown _ => Unreserved shown ∧ Woven shown (ps.codeBlocks.map Block.written)
  | doctype shown _ => (Unreserved shown ↔ ps.codeBlocks = []) ∧
      Woven shown (ps.codeBlocks.map fun b => mark b.number)
  | n => ∀ p ∈ n.parts, p.IsUnreserved

namespace MaskedSource
variable {d : Delimiters} {m : MaskedSource} {front ps back : Masked}

/-- A node is that of some token of the masked text, and shows what stands in its pieces. -/
def Shows (m : MaskedSource) (n : Node) : Prop :=
  ∃ front ps back t, m.masked = front ++ (ps ++ back) ∧
    ((Masked.text front).length, t) ∈ placed 0 (tokens m.masked.text) ∧ Masked.text ps = t.raw ∧
    m.node? (Masked.text front).length t = .ok (some n) ∧ n.Shows ps

section
variable (cut : Cut d {} .markup m.src m.masked) (clean : Unreserved m.src)
include cut clean

theorem expand_unreserved {s t : Bytes} (holds : m.masked.Holds s)
    (keeps : ∀ ks, Marked reserved s ks → Marked reserved t ks) :
    Answers (fun _ => True) (fun parts => ∀ p ∈ parts, p.IsUnreserved) (m.expand t) := by
  obtain ⟨front, ps, back, split, rfl⟩ := holds
  refine (parts_pieces cut charset_reserved clean split keeps).mono (fun _ _ => trivial) ?_
  rintro parts ⟨codes, raws⟩ p mem
  cases p with
  | absent | misplaced => exact trivial
  | raw value => exact raws value mem
  | code block =>
    have listed : block ∈ parts.filterMap Part.code? := List.mem_filterMap.mpr ⟨_, mem, rfl⟩
    rw [codes] at listed
    obtain ⟨⟨off, b⟩, here, rfl⟩ := List.mem_map.mp listed
    obtain ⟨before, behind, rfl, -⟩ := Masked.mem_blocksFrom.mp here
    exact cut.unreserved_code clean (b := b) (by simp [split])

theorem attr_unreserved (start : Nat) {a : RawAttribute} (named : m.masked.Holds a.key)
    (valued : ∀ v, a.value = some v → m.masked.Holds v.text ∧ Entity.Unnamed reserved v.text) :
    Answers (fun _ => True)
      (fun b : Attribute => ∀ p ∈ b.name.getD [] ++ b.value.elim [] AttrValue.parts, p.IsUnreserved)
      (m.attr start a) := by
  refine (expand_unreserved cut clean named fun _ marks => marks.lowered charset_reserved).bind
    fun name fine => ?_
  have values : Answers (fun _ => True)
      (fun value => ∀ v : AttrValue, value = some v → ∀ p ∈ v.parts, p.IsUnreserved)
      (a.value.mapM fun v => do
        return { quote := v.quote, parts := ← m.expand (Entity.decode v.text) }) := by
    refine Answers.optionMapM fun v same => ?_
    obtain ⟨holds, refs⟩ := valued v same
    refine (expand_unreserved cut clean holds fun _ marks => ?_).bind fun parts fine => fine
    exact marks.decoded charset_reserved refs
  refine values.bind fun value known => List.forall_mem_append.mpr ⟨fine, ?_⟩
  cases value with
  | none => exact nofun
  | some v => exact known v rfl

theorem tag_unreserved {raw : Bytes} {start opener : Nat} {closing solidus : Bool}
    (named : m.masked.Holds ((raw.drop opener).takeWhile (!endsName ·)))
    (attributes : closing = false →
      ∀ a ∈ RawAttribute.ofTag raw ((raw.drop opener).dropWhile (!endsName ·)),
        m.masked.Holds a.key ∧
          ∀ v, a.value = some v → m.masked.Holds v.text ∧ Entity.Unnamed reserved v.text) :
    Answers (fun _ => True) (fun t => ∀ p ∈ (Node.tag t).parts, p.IsUnreserved)
      (m.tag raw start opener closing solidus) := by
  rw [tag]
  refine (expand_unreserved cut clean named fun _ marks => marks.lowered charset_reserved).bind
    fun name fine => ?_
  have finished (attrs : List Attribute)
      (known : ∀ b ∈ attrs, ∀ p ∈ b.name.getD [] ++ b.value.elim [] AttrValue.parts,
        p.IsUnreserved) :
      ∀ p ∈ (Node.tag ⟨some name, if attrs.isEmpty then none else some (attrs.map some), closing,
        solidus, m.pos start⟩).parts, p.IsUnreserved := by
    rw [Node.parts, attributes_tag, List.forall_mem_append]
    refine ⟨fine, fun p mem => ?_⟩
    obtain ⟨b, listed, here⟩ := List.mem_flatMap.mp mem
    exact known b listed p here
  cases closing with
  | true => exact finished [] (by simp)
  | false =>
    refine Answers.bind (Answers.mapM fun a mem => ?_) finished
    obtain ⟨key, value⟩ := attributes rfl a mem
    exact attr_unreserved cut clean start key value

/-- The marks of the text of a comment or a doctype are those of its blocks. -/
theorem wrapped_marks {raw t opener closer : Bytes} (split : m.masked = front ++ (ps ++ back))
    (whole : ps.text = raw) (wraps : Wraps raw t opener closer) :
    ∃ es : List (Nat × Block), (∀ e ∈ es, m.masked.blocks[e.2.number]? = some e) ∧
      es.map (·.2) = ps.codeBlocks ∧ Marked reserved t (es.map (·.2.number)) := by
  have firm := cut.isFirm_middle split
  obtain ⟨head, inner, tail, rfl, rfl, before, behind⟩ := wraps.pieces firm whole
  have here : m.masked = front ++ head ++ (inner ++ (tail ++ back)) := by simp [split]
  refine ⟨inner.blocksFrom (front ++ head).source.length, fun e mem => mem_blocks cut here mem, ?_,
    marked_pieces cut charset_reserved clean here⟩
  rw [Masked.codeBlocks_between before behind, Masked.map_blocksFrom]

theorem endTag_unreserved (start : Nat) {raw : Bytes} (split : m.masked = front ++ (ps ++ back))
    (whole : ps.text = raw) (reads : (Token.endTag raw).IsWhole) :
    Answers (fun _ => True) (fun t => ∀ p ∈ (Node.tag t).parts, p.IsUnreserved)
      (m.tag raw start 2 true false) := by
  obtain ⟨c, body, rfl, letter⟩ := reads
  have firm := cut.isFirm_middle split
  obtain ⟨head, name, rest, rfl, -, named, -⟩ :=
    exists_name firm (show ps.text = [lt, slash] ++ c :: body from whole) (joint_slash _)
  exact tag_unreserved cut clean ⟨front ++ head, name, rest ++ back, by simp [split], named⟩ nofun

variable (refs : Entity.Unnamed reserved m.masked.text)
include refs

theorem startTag_unreserved (start : Nat) {raw : Bytes} {parts : TagParts}
    (split : m.masked = front ++ (ps ++ back)) (whole : ps.text = raw)
    (reads : (Token.startTag raw parts).IsWhole) (slice : Slice raw m.masked.text) :
    Answers (fun _ => True) (fun t => ∀ p ∈ (Node.tag t).parts, p.IsUnreserved)
      (m.tag raw start 1 false parts.solidus) := by
  have firm := cut.isFirm_middle split
  obtain ⟨head, name, rest, rfl, -, named, left, attributed⟩ := exists_attributed firm whole reads
  have tail : m.masked = front ++ (head ++ name) ++ (rest ++ back) := by simp [split]
  have ends : (raw.drop 1).dropWhile (!endsName ·) <:+ raw :=
    (List.dropWhile_suffix _).trans (List.drop_suffix _ _)
  refine tag_unreserved cut clean ⟨front ++ head, name, rest ++ back, by simp [split], named⟩
    fun _ a mem => ?_
  have listed := RawAttribute.mem_of_mem_distinct mem
  rw [← left] at listed
  obtain ⟨key, value⟩ := attributed.holds a listed
  exact ⟨key.mono tail, fun v same => ⟨(value v same).mono tail,
    refs.slice (((RawAttribute.ofTag_reads ends a mem).value v same).trans slice)⟩⟩

theorem comment_shows {raw t opener closer : Bytes} (few : m.masked.blocks.length ≤ signedLimit)
    (split : m.masked = front ++ (ps ++ back)) (whole : ps.text = raw)
    (slice : Slice raw m.masked.text) (wraps : Wraps raw t opener closer) (pos : Pos) :
    ∃ shown, unmask m.masked.blocks (Markup.shownComment t) = .ok shown ∧
      (Node.comment shown pos).Shows ps := by
  obtain ⟨es, known, blocks, marks⟩ := wrapped_marks cut clean split whole wraps
  obtain ⟨shown, restored, woven⟩ :=
    (marks.shownComment charset_reserved (refs.slice (wraps.slice.trans slice))).unmask few known
  have written : es.map (·.2.written) = ps.codeBlocks.map Block.written := by
    rw [← blocks, List.map_map]
    rfl
  rw [written] at woven
  refine ⟨shown, restored, woven.unreserved fun text mem => ?_, woven⟩
  obtain ⟨b, listed, rfl⟩ := List.mem_map.mp mem
  obtain ⟨p, inside, block⟩ := List.mem_filterMap.mp listed
  obtain rfl := Piece.block?_eq_some.mp block
  exact cut.sealed_written clean (by simp [split, inside])

theorem doctype_shows {raw t opener closer : Bytes} (split : m.masked = front ++ (ps ++ back))
    (whole : ps.text = raw) (slice : Slice raw m.masked.text) (wraps : Wraps raw t opener closer)
    (pos : Pos) : (Node.doctype (Markup.shownText t) pos).Shows ps := by
  obtain ⟨es, -, blocks, marks⟩ := wrapped_marks cut clean split whole wraps
  have woven := (marks.shownText charset_reserved (refs.slice (wraps.slice.trans slice))).woven
  have written : (es.map (·.2.number)).map mark = ps.codeBlocks.map fun b => mark b.number := by
    rw [← blocks, List.map_map, List.map_map]
    rfl
  refine ⟨woven.unreserved_iff.trans ?_, written ▸ woven⟩
  rw [← blocks, List.map_eq_nil_iff, List.map_eq_nil_iff]

/-- A node shows what stands in the pieces of its token. -/
theorem node?_shows (few : m.masked.blocks.length ≤ signedLimit) (start : Nat) {t : Token}
    (split : m.masked = front ++ (ps ++ back)) (whole : ps.text = t.raw) (reads : t.IsWhole)
    (wrapped : t.Wrapped) (slice : Slice t.raw m.masked.text) :
    Answers (fun _ => True) (fun node => ∀ n, node = some n → n.Shows ps) (m.node? start t) := by
  cases t with
  | text raw shown =>
    have parts := expand_unreserved cut clean ⟨front, ps, back, split, whole⟩ fun _ marks =>
      reads.marked charset_reserved (fun _ => refs.slice slice) marks
    refine parts.bind fun parts fine n same => ?_
    split at same <;> cases same
    exact fine
  | startTag raw parts =>
    refine (startTag_unreserved cut clean refs start split whole reads slice).bind fun t fine => ?_
    rintro n ⟨⟩
    exact fine
  | endTag raw =>
    refine (endTag_unreserved cut clean start split whole reads).bind fun t fine => ?_
    rintro n ⟨⟩
    exact fine
  | comment raw text =>
    obtain ⟨t, opener, closer, wraps, rfl⟩ := wrapped
    obtain ⟨shown, restored, shows⟩ :=
      comment_shows cut clean refs few split whole slice wraps (m.pos start)
    rw [node?, restored]
    rintro n ⟨⟩
    exact shows
  | doctype raw text =>
    obtain ⟨t, opener, closer, wraps, rfl⟩ := wrapped
    rintro n ⟨⟩
    exact doctype_shows cut clean refs split whole slice wraps (m.pos start)
  | unfinished raw => exact trivial

theorem nodes_shows (few : m.masked.blocks.length ≤ signedLimit) {ts : List Token}
    (tokenized : Tokenized back ts) (split : m.masked = front ++ back)
    (each : ∀ t ∈ ts, t.Wrapped ∧ Slice t.raw m.masked.text)
    (listed : ∀ t ∈ placed front.text.length ts, t ∈ placed 0 (tokens m.masked.text)) :
    Answers (fun _ => True) (fun ns => ∀ n ∈ ns, m.Shows n) (m.nodes front.text.length ts) := by
  induction tokenized generalizing front with
  | nil => exact nofun
  | @token ps rest t ts whole reads later ih =>
    rw [List.forall_mem_cons] at each
    rw [placed, List.forall_mem_cons, ← whole, ← List.length_append, ← Masked.text_append] at listed
    have next := ih (show m.masked = front ++ ps ++ rest by simp [split]) each.2 listed.2
    rw [nodes, ← whole, ← List.length_append, ← Masked.text_append]
    refine (node?_shows cut clean refs few front.text.length split whole reads each.1.1
      each.1.2).self.bind fun node first => next.bind fun ns known => ?_
    refine List.forall_mem_append.mpr ⟨fun n mem => ?_, known⟩
    obtain rfl := Option.mem_toList.mp mem
    exact ⟨front, ps, rest, t, split, listed.1, whole, first.1, first.2 n rfl⟩

end
end MaskedSource

/-- Read from a source without references to reserved characters, a document shows these characters
in its doctypes only: in the marks of the blocks that stand there, which come back neither as code
nor as written. Comments show their blocks as written. -/
theorem Document.parse_shows {d : Delimiters} {src : Bytes} {doc : Document}
    (small : src.length < signedLimit) (opening : Entity.refersTo 0xE000 src = false)
    (closing : Entity.refersTo 0xE001 src = false) (read : Document.parse d src = .ok doc) :
    ∃ m, Masked.ofSource d src = .ok m ∧ ∀ n ∈ doc.children, MaskedSource.Shows ⟨src, m⟩ n := by
  obtain ⟨clean, m, masked, nodes⟩ := Document.parse_ok read
  have cut := Masked.ofSource_ok.mp masked
  have refs : Entity.Unnamed reserved m.text :=
    List.forall_mem_cons.mpr ⟨⟨_, .opening, cut.refersTo_text opening⟩,
      List.forall_mem_singleton.mpr ⟨_, .closing, cut.refersTo_text closing⟩⟩
  have shows := MaskedSource.nodes_shows (m := ⟨src, m⟩) cut (reservedOffset?_eq_none.mp clean) refs
    (cut.few_blocks small) (tokenized_tokensFrom none cut.isFirm) (show m = [] ++ m from rfl)
    (wrapped_tokensFrom none m.text) fun _ mem => mem
  rw [← tokens, show (Masked.text []).length = 0 from rfl, nodes] at shows
  exact ⟨m, masked, shows⟩

/-- Code in a doctype, in a value, in a comment, there where the name of a tag stands, and in a
text. -/
def codeInEveryNode : Bytes := utf8 "<!doctype <%=d%>><a k=<%=v%>><!--<<%c%>>--><%=t%>"

/-- What is read from it. -/
def codeInEveryNodeRead : List Node :=
  [.doctype (mark 0) ⟨0, 1, 1⟩,
    .tag ⟨some [.raw (utf8 "a")], some [some ⟨some [.raw (utf8 "k")],
      some ⟨none, [.code ⟨.expression, utf8 "v", ⟨22, 1, 23⟩⟩]⟩, ⟨20, 1, 21⟩⟩], false, false,
      ⟨17, 1, 18⟩⟩,
    .comment (utf8 "<<%c%>>") ⟨29, 1, 30⟩, .text [.code ⟨.expression, utf8 "t", ⟨43, 1, 44⟩⟩]]

theorem Document.parse_shows_every_node :
    Document.parse .erb codeInEveryNode = .ok ⟨codeInEveryNodeRead⟩ ∧
      Entity.refersTo 0xE000 codeInEveryNode = false ∧
      Entity.refersTo 0xE001 codeInEveryNode = false ∧
      ∃ m, Masked.ofSource .erb codeInEveryNode = .ok m ∧
        ∀ n ∈ codeInEveryNodeRead, MaskedSource.Shows ⟨codeInEveryNode, m⟩ n := by
  have read : Document.parse .erb codeInEveryNode = .ok ⟨codeInEveryNodeRead⟩ := by decide +kernel
  have opening : Entity.refersTo 0xE000 codeInEveryNode = false := by decide +kernel
  have closing : Entity.refersTo 0xE001 codeInEveryNode = false := by decide +kernel
  exact ⟨read, opening, closing, Document.parse_shows (by decide +kernel) opening closing read⟩

/-- A template without reserved characters and without references to them, and a doctype in it that
shows the mark of its block. -/
theorem Document.doctype_keeps_mark :
    Document.parse .brace (utf8 "<!doctype \x7b=x\x7d>") = .ok ⟨[.doctype (mark 0) ⟨0, 1, 1⟩]⟩ ∧
      ¬Unreserved (mark 0) ∧ reservedOffset? (utf8 "<!doctype \x7b=x\x7d>") = none ∧
      Entity.refersTo 0xE000 (utf8 "<!doctype \x7b=x\x7d>") = false ∧
      Entity.refersTo 0xE001 (utf8 "<!doctype \x7b=x\x7d>") = false := by
  refine ⟨by decide +kernel, fun clean => absurd (clean markOpen (by decide)) (by decide +kernel),
    by decide +kernel, by decide +kernel, by decide +kernel⟩

end DomTemplate
