import DomTemplate.Proofs.PrintedTags
import DomTemplate.Proofs.TokenEnds

/-! The pieces that tokens are read from. A piece of more than one shown byte is an escape or a
mark, and no token, name, key or value of the masked text starts or ends in the middle of one.
So the tokens divide the pieces among them, and a tag its pieces among its name and its
attributes; all that is left between them are bytes of no block. -/

namespace DomTemplate
open Ascii Bytes Markup

/-- Two bytes that may follow each other within a piece as shown. -/
def joins (a b : UInt8) : Bool :=
  (a == lt && b == percent) || ((a == lowerX || isMarkByte a) && isMarkByte b)

/-- No piece reaches from `u` into `v`. -/
def Joint (u v : Bytes) : Prop :=
  ∀ a b, u.getLast? = some a → v.head? = some b → joins a b = false

/-- A piece that shows something, and shows it in one. A `<` alone is shown as written. -/
structure Piece.IsFirm (p : Piece) : Prop where
  nonempty : p.shown ≠ []
  chain : p.shown.IsChain fun a b => joins a b = true
  angle : p.shown = [lt] → p = .byte lt

theorem isFirm_byte (b : UInt8) : (Piece.byte b).IsFirm :=
  ⟨List.cons_ne_nil _ _, .singleton _, fun shown => congrArg _ (List.singleton_inj.mp shown)⟩

theorem isFirm_block (b : Block) : (Piece.block b).IsFirm := by
  have marked : ∀ a c, isMarkByte a = true → isMarkByte c = true → joins a c = true := by
    intro a c first second
    simp [joins, first, second]
  have mark : (mark b.number).IsChain fun a c => joins a c = true :=
    (List.pairwise_of_forall_mem_list fun a ha c hc =>
      marked a c (isMarkByte_mark _ a ha) (isMarkByte_mark _ c hc)).isChain
  have inside : (0xEE : UInt8) ∈ b.shown := by
    simp [Block.shown, DomTemplate.mark, markOpen]
  refine ⟨List.ne_nil_of_mem inside, ?_, fun shown => ?_⟩
  rotate_left
  · rw [Piece.shown] at shown
    rw [shown] at inside
    exact absurd inside (by decide)
  rw [Piece.shown, Block.shown]
  split
  · rw [tagLead, List.singleton_append, List.isChain_cons]
    refine ⟨fun c head => ?_, mark⟩
    simp [joins, isMarkByte_mark _ c (List.mem_of_mem_head? head)]
  · exact mark

theorem Cut.isFirm {d : Delimiters} {state : MaskState} {context : BraceContext} {s : Bytes}
    {m : Masked} (cut : Cut d state context s m) : ∀ p ∈ m, p.IsFirm := by
  induction cut with
  | nil => simp
  | escape after ih =>
    refine List.forall_mem_cons.mpr ⟨?_, ih⟩
    cases d with
    | brace => exact ⟨List.cons_ne_nil _ _, .singleton _, fun shown => absurd shown (by decide)⟩
    | erb =>
      exact ⟨List.cons_ne_nil _ _, .cons_cons (by decide) (.singleton _),
        fun shown => absurd shown (by decide)⟩
  | block encloses nonempty allowed after ih =>
    exact List.forall_mem_cons.mpr ⟨isFirm_block _, ih⟩
  | byte plain after ih => exact List.forall_mem_cons.mpr ⟨isFirm_byte _, ih⟩

theorem Cut.isFirm_middle {d : Delimiters} {state : MaskState} {context : BraceContext} {s : Bytes}
    {m front ps back : Masked} (cut : Cut d state context s m) (split : m = front ++ (ps ++ back)) :
    ∀ p ∈ ps, p.IsFirm :=
  fun p mem => cut.isFirm p (by simp [split, mem])

namespace Masked

/-- A text splits between pieces wherever no piece reaches over. -/
theorem exists_split {m : Masked} (firm : ∀ p ∈ m, p.IsFirm) {u v : Bytes}
    (whole : m.text = u ++ v) (joint : Joint u v) :
    ∃ front back : Masked, m = front ++ back ∧ front.text = u ∧ back.text = v := by
  induction m generalizing u with
  | nil =>
    obtain ⟨rfl, rfl⟩ := List.append_eq_nil_iff.mp whole.symm
    exact ⟨[], [], rfl, rfl, rfl⟩
  | cons p m ih =>
    rw [List.forall_mem_cons] at firm
    rw [Masked.text_cons] at whole
    rcases List.append_eq_append_iff.mp whole with ⟨w, rfl, rest⟩ | ⟨w, shown, rfl⟩
    · have later : Joint w v := by
        intro a b last head
        refine joint a b ?_ head
        rw [List.getLast?_append, last]
        rfl
      obtain ⟨front, back, rfl, rfl, rfl⟩ := ih firm.2 rest later
      exact ⟨p :: front, back, rfl, rfl, rfl⟩
    · cases w with
      | nil =>
        rw [List.append_nil] at shown
        exact ⟨[p], m, rfl, by simp [Masked.text, shown], rfl⟩
      | cons b w =>
        rcases List.eq_nil_or_concat u with rfl | ⟨u, a, rfl⟩
        · exact ⟨[], p :: m, rfl, rfl, by simp [Masked.text, shown]⟩
        · -- the two bytes at the joint stand in one piece
          have chain := firm.1.chain
          rw [shown, List.isChain_append] at chain
          have joined := chain.2.2 a (by simp) b rfl
          rw [joint a b (by simp) rfl] at joined
          cases joined

theorem sourceOffset_append (front back : Masked) (n : Nat) :
    Masked.sourceOffset (front ++ back) (front.text.length + n) =
      front.source.length + back.sourceOffset n := by
  induction front with
  | nil => simp [Masked.text, Masked.source]
  | cons p front ih =>
    rw [List.cons_append, Masked.sourceOffset, Masked.text_cons, Masked.source_cons,
      List.length_append, List.length_append, if_neg (by omega), Nat.add_assoc p.shown.length,
      Nat.add_sub_cancel_left, ih, Nat.add_assoc]

/-- A piece counts from its start. -/
theorem sourceOffset_piece {p : Piece} (firm : p.IsFirm) (front back : Masked) :
    Masked.sourceOffset (front ++ p :: back) front.text.length = front.source.length := by
  have here := sourceOffset_append front (p :: back) 0
  rwa [Masked.sourceOffset, if_pos (List.length_pos_iff.mpr firm.nonempty)] at here

end Masked

/-- A byte around the keys and the values of a tag. -/
def isSeparator (b : UInt8) : Bool :=
  isTagSpace b || [slash, equals, quote, apostrophe, gt].contains b

theorem separator_joins (a b : UInt8) (h : isSeparator a = true ∨ isSeparator b = true) :
    joins a b = false := by
  have outside : ∀ c, isSeparator c = true →
      (c == lt) = false ∧ (c == percent) = false ∧ (c == lowerX) = false ∧ isMarkByte c = false :=
    forall_byte (by decide +kernel)
  rcases h with left | right
  · simp [joins, outside a left]
  · simp [joins, outside b right]

theorem Joint.of_left {u : Bytes} (h : ∀ b ∈ u, isSeparator b = true) (v : Bytes) : Joint u v :=
  fun a b last _ => separator_joins a b (.inl (h a (List.mem_of_mem_getLast? last)))

theorem Joint.of_right {v : Bytes} (h : ∀ b, v.head? = some b → isSeparator b = true) (u : Bytes) :
    Joint u v :=
  fun a b _ head => separator_joins a b (.inr (h b head))

theorem Joint.nil (v : Bytes) : Joint [] v := fun _ _ last => by cases last

theorem joint_lt {c : UInt8} (letter : isLetter c = true) (body : Bytes) : Joint [lt] (c :: body) := by
  have apart : ∀ c, isLetter c = true → joins lt c = false := forall_byte (by decide +kernel)
  rintro a b ⟨⟩ ⟨⟩
  exact apart c letter

theorem joint_slash (body : Bytes) : Joint [lt, slash] body := by
  rintro a b ⟨⟩ -
  exact separator_joins slash b (.inl (by decide))

theorem Markup.Parted.joint {raw rest : Bytes} (h : Parted raw rest) : Joint raw rest := by
  intro a b last head
  rcases h with rfl | starts | ends
  · cases head
  · rw [starts, Option.some.injEq] at head
    have angle : ∀ a, joins a lt = false := forall_byte (by decide +kernel)
    exact head ▸ angle a
  · rw [ends, Option.some.injEq] at last
    exact separator_joins a b (.inl (last ▸ by decide))

namespace Markup

/-- The end of a tag, from a place between its attributes on. -/
def TagTail (s : Bytes) : Prop :=
  ∃ afterSlash tail rest, tagEndSpan? afterSlash (s ++ rest) = some (tail, rest)

/-- The end of a tag, with the attributes that are read from there on. -/
def TagRest (s : Bytes) (attributes : List (Bytes × Bytes)) : Prop :=
  ∃ afterSlash solidus rest, tagEndSpan? afterSlash (s ++ rest) = some (⟨attributes, solidus⟩, rest)

section Tails
variable {s : Bytes}

theorem TagRest.tagTail {attributes : List (Bytes × Bytes)} (h : TagRest s attributes) : TagTail s := by
  obtain ⟨afterSlash, solidus, rest, span⟩ := h
  exact ⟨afterSlash, _, rest, span⟩

theorem dropWhile_gt_ne_nil {p : UInt8 → Bool} (stops : p gt = false) (s : Bytes) :
    (s ++ [gt]).dropWhile p ≠ [] := by
  intro empty
  have all := List.dropWhile_eq_nil_iff.mp empty gt (by simp)
  rw [stops] at all
  cases all

theorem dropWhile_append_gt {p : UInt8 → Bool} (stops : p gt = false) (s t : Bytes) :
    (s ++ [gt] ++ t).dropWhile p = (s ++ [gt]).dropWhile p ++ t := by
  rw [List.dropWhile_append, if_neg (by simpa using dropWhile_gt_ne_nil stops s)]

theorem takeWhile_append_gt {p : UInt8 → Bool} (stops : p gt = false) (s t : Bytes) :
    (s ++ [gt] ++ t).takeWhile p = (s ++ [gt]).takeWhile p := by
  have both : (s ++ [gt] ++ t).takeWhile p ++ ((s ++ [gt]).dropWhile p ++ t) =
      (s ++ [gt]).takeWhile p ++ ((s ++ [gt]).dropWhile p ++ t) := by
    rw [← dropWhile_append_gt stops, List.takeWhile_append_dropWhile, dropWhile_append_gt stops,
      ← List.append_assoc, List.takeWhile_append_dropWhile]
  exact List.append_cancel_right both

theorem TagTail.ends (h : TagTail s) : ∃ t, s = t ++ [gt] := by
  obtain ⟨afterSlash, tail, rest, span⟩ := h
  obtain ⟨front, split⟩ := tagEndSpan?_suffix span
  rw [List.append_cons, List.append_cancel_right_eq] at split
  exact ⟨front, split.symm⟩

theorem skipSpace_append_gt (s t : Bytes) : skipSpace (s ++ [gt] ++ t) = skipSpace (s ++ [gt]) ++ t :=
  dropWhile_append_gt (by decide) s t

theorem afterKey_append_gt (s t : Bytes) : afterKey (s ++ [gt] ++ t) = afterKey (s ++ [gt]) ++ t := by
  have stops : inKey gt = false := by decide
  cases s with
  | nil => simp [afterKey, stops, show gt ≠ equals by decide]
  | cons c s =>
    simp only [List.cons_append, afterKey]
    split
    · exact dropWhile_append_gt stops s t
    · exact dropWhile_append_gt stops (c :: s) t

/-- A part of the end of a tag ends as the tag does. -/
theorem exists_of_suffix_gt {s t : Bytes} {c : UInt8} (h : c :: t <:+ s ++ [gt]) :
    ∃ u, c :: t = u ++ [gt] := by
  obtain ⟨u, same, -⟩ := (List.suffix_concat_iff.mp h).resolve_left (List.cons_ne_nil _ _)
  exact ⟨u, same⟩

theorem exists_of_cons_gt {s t : Bytes} {c : UInt8} (h : c :: t = s ++ [gt]) (other : c ≠ gt) :
    ∃ u, t = u ++ [gt] := by
  cases t with
  | nil =>
    have same : [] ++ [c] = s ++ [gt] := h
    exact absurd (List.singleton_inj.mp (List.append_inj' same rfl).2) other
  | cons d t => exact exists_of_suffix_gt (h ▸ List.suffix_cons c (d :: t))

theorem afterKey_gt (s : Bytes) : ∃ u, afterKey (s ++ [gt]) = u ++ [gt] := by
  have stops : inKey gt = false := by decide
  cases left : afterKey (s ++ [gt]) with
  | nil =>
    exfalso
    cases s with
    | nil => simp [afterKey, stops, show gt ≠ equals by decide] at left
    | cons c s =>
      rw [List.cons_append, afterKey] at left
      split at left
      · exact dropWhile_gt_ne_nil stops s left
      · exact dropWhile_gt_ne_nil stops (c :: s) left
  | cons c cs => exact exists_of_suffix_gt (left ▸ afterKey_suffix (s ++ [gt]))

theorem tagEndSpan?_left {afterSlash : Bool} {s rest : Bytes} {tail : TagEnd}
    (h : tagEndSpan? afterSlash s = some (tail, rest)) : ∃ t, s = t ++ rest ∧ TagTail t := by
  obtain ⟨front, rfl⟩ := tagEndSpan?_suffix h
  exact ⟨front ++ [gt], by simp, afterSlash, tail, rest, by simpa using h⟩

/-- White space before the end of a tag makes no difference to where it ends. -/
theorem TagRest.cons_space {c : UInt8} {attributes : List (Bytes × Bytes)}
    (space : isTagSpace c = true) (h : TagRest s attributes) : TagRest (c :: s) attributes := by
  obtain ⟨afterSlash, solidus, rest, span⟩ := h
  have skips : skipSpace (c :: (s ++ rest)) = skipSpace (s ++ rest) := by simp [skipSpace, space]
  have wider := tagEndSpan?_eq afterSlash (c :: (s ++ rest))
  rw [tagEndSpan?_eq] at span
  rw [skips] at wider
  cases left : skipSpace (s ++ rest) with
  | nil => rw [left] at span; cases span
  | cons d ds =>
    simp only [left] at span wider
    by_cases closed : d = gt
    · rw [if_pos closed] at span wider
      cases span
      exact ⟨afterSlash, _, _, wider⟩
    · rw [if_neg closed] at span wider
      exact ⟨afterSlash, solidus, rest, wider.trans span⟩

theorem TagTail.cons_space {c : UInt8} (space : isTagSpace c = true) (h : TagTail s) :
    TagTail (c :: s) := by
  obtain ⟨afterSlash, tail, rest, span⟩ := h
  have wider := TagRest.cons_space space ⟨afterSlash, tail.solidus, rest, span⟩
  exact wider.tagTail

/-- What follows a key, around its value, and what is left of the tag then. -/
structure SplitsValue (s : Bytes) (value : Option RawValue) (rest : Bytes) : Prop where
  split : ∃ gap gap', s = gap ++ (value.elim [] RawValue.text ++ (gap' ++ rest)) ∧
    (∀ b ∈ gap, isSeparator b = true) ∧ (∀ b ∈ gap', isSeparator b = true) ∧
    Joint (value.elim [] RawValue.text) (gap' ++ rest)
  tail : TagTail rest

theorem spaces_separate (s : Bytes) : ∀ b ∈ s.takeWhile isTagSpace, isSeparator b = true := by
  intro b mem
  rw [isSeparator, List.mem_takeWhile_imp mem, Bool.true_or]

theorem splitsValue_written {s rest more value : Bytes} {afterSlash : Bool} {tail : TagEnd}
    (written : writtenValue? (s ++ [gt] ++ more) = some (value, rest))
    (span : tagEndSpan? afterSlash rest = some (tail, more)) :
    SplitsValue (s ++ [gt]) (some (RawValue.read (s ++ [gt])).1) (RawValue.read (s ++ [gt])).2 := by
  obtain ⟨left, rfl, remains⟩ := tagEndSpan?_left span
  have unquoted := dropWhile_append_gt (p := inUnquoted) (by decide) s more
  obtain ⟨c, cs, first⟩ : ∃ c cs, s ++ [gt] = c :: cs := List.exists_cons_of_ne_nil (by simp)
  rw [first] at written unquoted ⊢
  rw [List.cons_append, writtenValue?] at written
  rw [RawValue.read]
  cases mark : Quote.ofByte? c with
  | some mark =>
    have quoted : ∀ c, Quote.ofByte? c ≠ none →
        c ≠ gt ∧ (c = quote ∨ c = apostrophe) ∧ isSeparator c = true :=
      forall_byte (by decide +kernel)
    obtain ⟨open_, quote, separates⟩ := quoted c (by simp [mark])
    rw [if_neg open_, if_pos quote] at written
    obtain ⟨split, closes⟩ := cut?_spec (List.cons_ne_nil _ _) written
    rw [← List.append_assoc, List.append_cancel_right_eq] at split
    simp only [split, closes]
    exact ⟨⟨[c], [c], by simp, by simp [separates], by simp [separates],
      .of_right (by simp [separates]) _⟩, remains⟩
  | none =>
    refine ⟨⟨[], [], ?_, by simp, by simp, .of_right (fun b head => ?_) _⟩, ?_⟩
    · exact List.takeWhile_append_dropWhile.symm
    · have stops : ∀ b, inUnquoted b = false → isSeparator b = true := forall_byte (by decide +kernel)
      exact stops b (dropWhile_stops head)
    · split_ifs at written with closed quoted
      · rw [Option.some.injEq, Prod.mk.injEq, ← List.cons_append,
          List.append_cancel_right_eq] at written
        rw [closed, List.dropWhile_cons_of_neg (by decide), ← closed, written.2]
        exact remains
      · have unmarked : ∀ c, c = quote ∨ c = apostrophe → Quote.ofByte? c ≠ none :=
          forall_byte (by decide +kernel)
        exact absurd mark (unmarked c quoted)
      · rw [← List.cons_append, unquoted] at written
        cases stopped : (c :: cs).dropWhile inUnquoted with
        | nil => exact absurd (first ▸ stopped) (dropWhile_gt_ne_nil (by decide) s)
        | cons d ds =>
          simp only [stopped, List.cons_append, Option.some.injEq, Prod.mk.injEq] at written
          split_ifs at written with ended
          · have same : d :: ds = left := List.append_cancel_right written.2
            exact same ▸ remains
          · -- the reader of the tag's end takes the white space after the value
            have same : ds = left := List.append_cancel_right written.2
            have spaced : ∀ d, inUnquoted d = false → d ≠ gt → isTagSpace d = true :=
              forall_byte (by decide +kernel)
            have head : ((c :: cs).dropWhile inUnquoted).head? = some d := by rw [stopped]; rfl
            exact same ▸ remains.cons_space (spaced d (dropWhile_stops head) ended)

theorem SplitsValue.prepend {value : Option RawValue} {rest gap : Bytes}
    (h : SplitsValue s value rest) (separates : ∀ b ∈ gap, isSeparator b = true) :
    SplitsValue (gap ++ s) value rest := by
  obtain ⟨⟨before, after, rfl, first, second, joint⟩, tail⟩ := h
  exact ⟨⟨gap ++ before, after, by simp, List.forall_mem_append.mpr ⟨separates, first⟩, second, joint⟩,
    tail⟩

theorem TagTail.splitsValue_none (h : TagTail s) : SplitsValue s none s :=
  ⟨⟨[], [], rfl, by simp, by simp, .nil _⟩, h⟩

theorem skipSpace_gt (s : Bytes) : ∃ c cs u, skipSpace (s ++ [gt]) = c :: cs ∧ c :: cs = u ++ [gt] := by
  cases left : skipSpace (s ++ [gt]) with
  | nil => exact absurd left (dropWhile_gt_ne_nil (by decide) s)
  | cons c cs =>
    obtain ⟨u, same⟩ := exists_of_suffix_gt (left ▸ skipSpace_suffix (s ++ [gt]))
    exact ⟨c, cs, u, rfl, same⟩

/-- The value of a key ends where the reader of the tag's end finds its end. -/
theorem splitsValue_readValue {s rest more value : Bytes} {afterSlash : Bool} {tail : TagEnd}
    (valued : valueSpan? (s ++ [gt] ++ more) = some (value, rest))
    (span : tagEndSpan? afterSlash rest = some (tail, more)) :
    SplitsValue (s ++ [gt]) (RawAttribute.readValue (s ++ [gt])).1
      (RawAttribute.readValue (s ++ [gt])).2 := by
  obtain ⟨left, rfl, remains⟩ := tagEndSpan?_left span
  obtain ⟨c, cs, u, first, ends⟩ := skipSpace_gt s
  have spaced : (s ++ [gt]).takeWhile isTagSpace ++ c :: cs = s ++ [gt] := by
    rw [← first]
    exact List.takeWhile_append_dropWhile
  rw [valueSpan?, skipSpace_append_gt, first] at valued
  rw [RawAttribute.readValue, first, ← spaced]
  refine SplitsValue.prepend ?_ (spaces_separate _)
  simp only [List.cons_append] at valued ⊢
  by_cases ended : c = slash
  · rw [if_pos ended, Option.some.injEq, Prod.mk.injEq, List.append_cancel_right_eq] at valued
    rw [if_pos ended, valued.2]
    exact remains.splitsValue_none.prepend (show ∀ b ∈ [c], isSeparator b = true by simp [ended, isSeparator])
  by_cases equal : c = equals
  · rw [if_neg ended, if_pos equal] at valued ⊢
    obtain ⟨v, same⟩ := exists_of_cons_gt ends (by rw [equal]; decide)
    obtain ⟨e, es, w, skipped, last⟩ := skipSpace_gt v
    rw [same, skipSpace_append_gt, skipped, last] at valued
    have written := splitsValue_written valued span
    have inner : (v ++ [gt]).takeWhile isTagSpace ++ (w ++ [gt]) = v ++ [gt] := by
      rw [← last, ← skipped]
      exact List.takeWhile_append_dropWhile
    rw [same, skipped, last]
    have whole := (written.prepend (spaces_separate (v ++ [gt]))).prepend
      (show ∀ b ∈ [c], isSeparator b = true by simp [equal, isSeparator])
    rwa [inner] at whole
  · rw [if_neg ended, if_neg equal, Option.some.injEq, Prod.mk.injEq, ← List.cons_append,
      List.append_cancel_right_eq] at valued
    rw [if_neg ended, if_neg equal]
    exact (valued.2 ▸ remains).splitsValue_none

theorem keyOf_append_gt (s t : Bytes) : keyOf (s ++ [gt] ++ t) = keyOf (s ++ [gt]) := by
  have longer := keyOf_append (s ++ [gt] ++ t)
  rw [afterKey_append_gt, ← List.append_assoc, List.append_cancel_right_eq] at longer
  exact List.append_cancel_right (longer.trans (keyOf_append (s ++ [gt])).symm)

/-- What the reader of a tag's end does there: it takes the `>`, or an attribute before the rest. -/
theorem tagEndSpan?_step {afterSlash : Bool} {t more : Bytes} {tail : TagEnd}
    (span : tagEndSpan? afterSlash (t ++ [gt] ++ more) = some (tail, more)) :
    (skipSpace (t ++ [gt]) = [gt] ∧ tail.attributes = []) ∨ ∃ c cs v value rest slashed later,
      skipSpace (t ++ [gt]) = c :: cs ∧ c ≠ gt ∧ afterKey (c :: cs) = v ++ [gt] ∧
      valueSpan? (v ++ [gt] ++ more) = some (value, rest) ∧
      tagEndSpan? slashed rest = some (later, more) ∧ tail = later.cons (keyOf (c :: cs), value) := by
  obtain ⟨c, cs, u, first, ends⟩ := skipSpace_gt t
  rw [tagEndSpan?_eq, skipSpace_append_gt, first] at span
  simp only [List.cons_append] at span
  by_cases closed : c = gt
  · rw [if_pos closed, Option.some.injEq, Prod.mk.injEq] at span
    have none : cs = [] := List.append_cancel_right (show cs ++ more = [] ++ more from span.2)
    exact .inl ⟨by rw [first, closed, none], congrArg TagEnd.attributes span.1.symm⟩
  · obtain ⟨v, behind⟩ := afterKey_gt u
    rw [if_neg closed, attributeSpan?, ← List.cons_append, ends, afterKey_append_gt, keyOf_append_gt,
      behind] at span
    cases valued : valueSpan? (v ++ [gt] ++ more) with
    | none => rw [valued] at span; cases span
    | some found =>
      rw [valued] at span
      obtain ⟨⟨later, _⟩, tailed, same⟩ := Option.map_eq_some_iff.mp span
      cases same
      exact .inr ⟨c, cs, v, found.1, found.2, _, later, first, closed, ends ▸ behind, valued, tailed,
        by rw [ends]⟩

/-- What is left of a tag: its `>`, or one more attribute. -/
theorem TagTail.next (h : TagTail s) :
    skipSpace s = [gt] ∨ ∃ c cs, skipSpace s = c :: cs ∧ c ≠ gt ∧
      SplitsValue (afterKey (c :: cs)) (RawAttribute.readValue (afterKey (c :: cs))).1
        (RawAttribute.readValue (afterKey (c :: cs))).2 := by
  obtain ⟨t, rfl⟩ := h.ends
  obtain ⟨afterSlash, tail, more, span⟩ := h
  obtain ⟨last, -⟩ | ⟨c, cs, v, value, rest, slashed, later, first, other, behind, valued, span, -⟩ :=
    tagEndSpan?_step span
  · exact .inl last
  · refine .inr ⟨c, cs, first, other, ?_⟩
    rw [behind]
    exact splitsValue_readValue valued span

theorem joint_keyOf (s : Bytes) : Joint (keyOf s) (afterKey s) := by
  have separates : ∀ b, inKey b = false → isSeparator b = true := forall_byte (by decide +kernel)
  refine .of_right (fun b head => ?_) _
  cases s with
  | nil => cases head
  | cons c cs =>
    rw [afterKey] at head
    split at head <;> exact separates b (dropWhile_stops head)

end Tails

/-- The pieces of the end of a tag of `size` bytes, divided among its attributes. -/
inductive Attributed (size : Nat) : Masked → List RawAttribute → Prop where
  | close {ps : Masked} (plain : ∀ b ∈ ps.text, isSeparator b = true) : Attributed size ps []
  | attr {gap key within value behind rest : Masked} {a : RawAttribute}
      {as : List RawAttribute} (before : ∀ b ∈ gap.text, isSeparator b = true)
      (named : key.text = a.key) (between : ∀ b ∈ within.text, isSeparator b = true)
      (valued : value.text = a.value.elim [] RawValue.text)
      (after : ∀ b ∈ behind.text, isSeparator b = true)
      (offset : a.offset +
        (Masked.text (key ++ (within ++ (value ++ (behind ++ rest))))).length = size)
      (later : Attributed size rest as) :
      Attributed size (gap ++ (key ++ (within ++ (value ++ (behind ++ rest))))) (a :: as)

theorem TagTail.attributed {size : Nat} {ps : Masked} (firm : ∀ p ∈ ps, p.IsFirm)
    (h : TagTail ps.text) (fits : ps.text.length ≤ size) :
    Attributed size ps (RawAttribute.readAll size ps.text) := by
  generalize whole : ps.text = s at h fits
  fun_induction RawAttribute.readAll size s generalizing ps with
  | case1 s none => rcases h.next with last | ⟨c, cs, first, -⟩ <;> simp_all
  | case2 s cs closed =>
    refine .close ?_
    have none : cs = [] := by rcases h.next with last | ⟨c, cs, first, more, -⟩ <;> simp_all
    have spaced : s.takeWhile isTagSpace ++ skipSpace s = s := List.takeWhile_append_dropWhile
    rw [whole, ← spaced, closed, none, List.forall_mem_append]
    exact ⟨spaces_separate s, by simp [isSeparator]⟩
  | case3 s c cs first more shorter smaller ih =>
    have spaced : s.takeWhile isTagSpace ++ c :: cs = s := by
      rw [← first]
      exact List.takeWhile_append_dropWhile
    obtain ⟨⟨gap, gap', split, before, after, joint⟩, tail⟩ :
        SplitsValue (afterKey (c :: cs)) (RawAttribute.readValue (afterKey (c :: cs))).1
          (RawAttribute.readValue (afterKey (c :: cs))).2 := by
      rcases h.next with last | ⟨d, ds, same, -, splits⟩ <;> simp_all
    -- no piece reaches over a joint, so the text is cut into gap, key, value and what is between
    obtain ⟨p₀, ps, rfl, spaces, rest₀⟩ := Masked.exists_split firm (whole.trans spaced.symm)
      (.of_left (spaces_separate s) _)
    rw [List.forall_mem_append] at firm
    obtain ⟨p₁, ps, rfl, key, rest₁⟩ := Masked.exists_split firm.2
      (rest₀.trans (keyOf_append (c :: cs)).symm) (joint_keyOf _)
    rw [List.forall_mem_append] at firm
    obtain ⟨p₂, ps, rfl, within, rest₂⟩ := Masked.exists_split firm.2.2 (rest₁.trans split)
      (.of_left before _)
    rw [List.forall_mem_append] at firm
    obtain ⟨p₃, ps, rfl, value, rest₃⟩ := Masked.exists_split firm.2.2.2 rest₂ joint
    rw [List.forall_mem_append] at firm
    obtain ⟨p₄, ps, rfl, behind, rest₄⟩ := Masked.exists_split firm.2.2.2.2 rest₃ (.of_left after _)
    rw [List.forall_mem_append] at firm
    have left := ih firm.2.2.2.2.2 rest₄ tail (by omega)
    refine .attr (spaces ▸ spaces_separate s) key (within ▸ before) value (behind ▸ after) ?_ left
    rw [rest₀]
    exact Nat.sub_add_cancel (by omega)

/-- What the text of a token is made of. Markup starts with a `<` of its own, and a start tag goes
on to the `>` that ends it. -/
def Token.IsWhole : Token → Prop
  | .text raw shown => shown = shownText raw ∨ ∃ element : RawElement, shown = element.shown raw
  | .startTag raw _ => ∃ c body, raw = lt :: c :: body ∧ isLetter c = true ∧
      TagTail ((c :: body).dropWhile (!endsName ·))
  | .endTag raw => ∃ c body, raw = lt :: slash :: c :: body ∧ isLetter c = true
  | .comment raw _ | .doctype raw _ | .unfinished raw =>
    ∃ b rest, raw = lt :: b :: rest ∧ b ≠ percent

theorem consumed_cons_cons {a b : UInt8} {body rest : Bytes} (ends : rest <:+ body) :
    ∃ t, consumed (a :: b :: body) rest = a :: b :: t := by
  obtain ⟨t, rfl⟩ := ends
  refine ⟨t, ?_⟩
  have whole : a :: b :: (t ++ rest) = (a :: b :: t) ++ rest := rfl
  rw [whole, consumed_front]

theorem isWhole_comment {b : UInt8} {body text rest : Bytes} (other : b ≠ percent)
    (ends : rest <:+ body) : (commentToken (lt :: b :: body) text rest).1.IsWhole := by
  obtain ⟨t, raw⟩ := consumed_cons_cons (a := lt) (b := b) ends
  exact ⟨b, t, raw, other⟩

theorem isWhole_startTag {c : UInt8} {body : Bytes} (letter : isLetter c = true) :
    (startTagToken (lt :: c :: body) (c :: body)).1.IsWhole := by
  rw [startTagToken]
  cases found : tagSpan? (c :: body) with
  | none =>
    refine ⟨c, body, rfl, ?_⟩
    rintro rfl
    exact absurd letter (by decide)
  | some span =>
    obtain ⟨parts, rest⟩ := span
    obtain ⟨middle, raw, whole⟩ := tag_raw [lt] letter found
    refine ⟨c, middle ++ [gt], raw, letter, ?_⟩
    obtain ⟨⟨tail, rest'⟩, ends, same⟩ := Option.map_eq_some_iff.mp found
    cases same
    refine ⟨false, tail, rest, ?_⟩
    have body : c :: body = c :: middle ++ [gt] ++ rest := by simpa using whole.symm
    rw [← List.cons_append, ← dropWhile_append_gt (by decide), ← body]
    exact ends

theorem isWhole_closing (body : Bytes) : (closingToken (lt :: slash :: body) body).1.IsWhole := by
  cases body with
  | nil => exact .inl rfl
  | cons c cs =>
    rw [closingToken]
    split_ifs with empty letter
    · exact isWhole_comment (by decide) (List.suffix_cons _ _)
    · cases found : tagSpan? (c :: cs) with
      | none => exact ⟨slash, c :: cs, rfl, by decide⟩
      | some span =>
        obtain ⟨parts, rest⟩ := span
        obtain ⟨middle, raw, -⟩ := tag_raw [lt, slash] letter found
        exact ⟨c, _, raw, letter⟩
    · exact isWhole_comment (by decide) (angleSpan_suffix _)

theorem isWhole_markupToken {s : Bytes} (starts : markupStarts s = true) :
    (markupToken s).1.IsWhole := by
  rcases s with _ | ⟨a, _ | ⟨b, body⟩⟩
  · cases starts
  · cases starts
  have angle := head_of_markupStarts starts
  subst angle
  have second : isLetter b = true ∨ b = slash ∨ b = bang ∨ b = question := by
    simpa [markupStarts, or_assoc] using starts
  rw [markupToken]
  split_ifs with letter closing declared
  · exact isWhole_startTag letter
  · exact closing ▸ isWhole_closing body
  · have ends := (declarationSpan_reads body).1
    rw [declarationToken]
    split <;> rename_i found <;> rw [found] at ends
    · exact isWhole_comment (by rw [declared]; decide) ends
    · obtain ⟨t, raw⟩ := consumed_cons_cons (a := lt) (b := b) ends
      exact ⟨b, t, raw, by rw [declared]; decide⟩
  · have question : b = Ascii.question := by simpa [letter, closing, declared] using second
    subst question
    exact isWhole_comment (by decide) (angleSpan_suffix body)

theorem isWhole_firstToken {inside : Option RawElement} {s : Bytes} (nonempty : s ≠ []) :
    (firstToken inside s).1.IsWhole := by
  have plain : (plainToken s).1.IsWhole := by
    rw [plainToken]
    split
    · rename_i empty
      refine isWhole_markupToken ?_
      obtain ⟨c, cs, rfl⟩ := List.exists_cons_of_ne_nil nonempty
      by_contra text
      rw [textSpan, if_neg text] at empty
      cases empty
    · exact .inl rfl
  unfold firstToken
  split
  · split
    · exact plain
    · exact .inr ⟨_, rfl⟩
  · exact plain

/-- A `<` that starts no delimiter is a piece of its own. -/
theorem exists_angle {ps : Masked} (firm : ∀ p ∈ ps, p.IsFirm) {b : UInt8} {rest : Bytes}
    (whole : ps.text = lt :: b :: rest) (other : b ≠ percent) :
    ∃ back, ps = .byte lt :: back ∧ Masked.text back = b :: rest := by
  have joint : Joint [lt] (b :: rest) := by
    rintro a b' ⟨⟩ ⟨⟩
    have apart : isMarkByte lt = false := by decide
    simp [joins, other, apart, show lt ≠ lowerX by decide]
  obtain ⟨front, back, rfl, angle, text⟩ := Masked.exists_split firm (v := b :: rest) whole joint
  rcases front with _ | ⟨p, front⟩
  · cases angle
  rw [Masked.text_cons, List.append_eq_singleton_iff] at angle
  have first := firm p (List.mem_cons_self)
  rcases angle with ⟨none, -⟩ | ⟨shown, none⟩
  · exact absurd none first.nonempty
  · cases front with
    | nil => exact ⟨back, by rw [first.angle shown]; rfl, text⟩
    | cons q front =>
      rw [Masked.text_cons, List.append_eq_nil_iff] at none
      exact absurd none.1 (firm q (by simp)).nonempty

/-- Markup starts with a piece that is a `<`. -/
theorem Token.IsWhole.angle {ps : Masked} (firm : ∀ p ∈ ps, p.IsFirm) {t : Token} (h : t.IsWhole)
    (whole : ps.text = t.raw) (markup : ∀ raw shown, t ≠ .text raw shown) :
    ∃ back, ps = .byte lt :: back := by
  have starts : ∃ b rest, t.raw = lt :: b :: rest ∧ b ≠ percent := by
    cases t with
    | text raw shown => exact absurd rfl (markup raw shown)
    | startTag raw parts =>
      obtain ⟨c, body, rfl, letter, -⟩ := h
      refine ⟨c, body, rfl, ?_⟩
      rintro rfl
      exact absurd letter (by decide)
    | endTag raw =>
      obtain ⟨c, body, rfl, -⟩ := h
      exact ⟨slash, c :: body, rfl, by decide⟩
    | comment | doctype | unfinished => exact h
  obtain ⟨b, rest, raw, other⟩ := starts
  obtain ⟨back, split, -⟩ := exists_angle firm (whole.trans raw) other
  exact ⟨back, split⟩

/-- The name of a tag and what follows it. -/
theorem exists_name {ps : Masked} (firm : ∀ p ∈ ps, p.IsFirm) {opener body : Bytes}
    (whole : ps.text = opener ++ body) (joint : Joint opener body) :
    ∃ head name tail : Masked, ps = head ++ (name ++ tail) ∧ head.text = opener ∧
      name.text = body.takeWhile (!endsName ·) ∧ tail.text = body.dropWhile (!endsName ·) := by
  obtain ⟨head, rest, rfl, opens, text⟩ := Masked.exists_split firm whole joint
  have ends : Joint (body.takeWhile (!endsName ·)) (body.dropWhile (!endsName ·)) := by
    have separates : ∀ b, (!endsName b) = false → isSeparator b = true :=
      forall_byte (by decide +kernel)
    exact .of_right (fun b stops => separates b (dropWhile_stops stops)) _
  obtain ⟨name, tail, rfl, named, left⟩ := Masked.exists_split
    (fun p mem => firm p (List.mem_append_right _ mem))
    (text.trans List.takeWhile_append_dropWhile.symm) ends
  exact ⟨head, name, tail, rfl, opens, named, left⟩

/-- The pieces of a start tag: its `<`, its name and its attributes. -/
theorem exists_attributed {ps : Masked} (firm : ∀ p ∈ ps, p.IsFirm) {raw : Bytes} {parts : TagParts}
    (whole : ps.text = raw) (reads : (Token.startTag raw parts).IsWhole) :
    ∃ head name rest : Masked, ps = head ++ (name ++ rest) ∧ head.text = [lt] ∧
      name.text = (raw.drop 1).takeWhile (!endsName ·) ∧
      rest.text = (raw.drop 1).dropWhile (!endsName ·) ∧
      Attributed raw.length rest (RawAttribute.readAll raw.length rest.text) := by
  obtain ⟨c, body, rfl, letter, tail⟩ := reads
  obtain ⟨head, name, rest, rfl, opens, named, left⟩ :=
    exists_name firm (show ps.text = [lt] ++ c :: body from whole) (joint_lt letter _)
  refine ⟨head, name, rest, rfl, opens, named, left,
    TagTail.attributed (fun p mem => firm p (by simp [mem])) (left ▸ tail) ?_⟩
  rw [← whole, Masked.text_append, Masked.text_append]
  simp only [List.length_append]
  omega

/-- Pieces divided among tokens. -/
inductive Tokenized : Masked → List Token → Prop where
  | nil : Tokenized [] []
  | token {ps rest : Masked} {t : Token} {ts : List Token} (raw : ps.text = t.raw)
      (reads : t.IsWhole) (later : Tokenized rest ts) : Tokenized (ps ++ rest) (t :: ts)

/-- The tokens of a masked text divide its pieces. -/
theorem tokenized_tokensFrom (inside : Option RawElement) {m : Masked} (firm : ∀ p ∈ m, p.IsFirm) :
    Tokenized m (tokensFrom inside m.text) := by
  generalize whole : m.text = s
  fun_induction tokensFrom inside s generalizing m with
  | case1 =>
    cases m with
    | nil => exact .nil
    | cons p m =>
      rw [Masked.text_cons] at whole
      exact absurd (List.append_eq_nil_iff.mp whole).1 (firm p List.mem_cons_self).nonempty
  | case2 inside s nonempty shorter ih =>
    obtain ⟨front, back, rfl, raw, rest⟩ := Masked.exists_split firm
      (whole.trans (firstToken_reads inside s).1.symm) (firstToken_parted inside s).joint
    exact .token raw (isWhole_firstToken nonempty)
      (ih (fun p mem => firm p (List.mem_append_right _ mem)) rest)

end Markup
end DomTemplate
