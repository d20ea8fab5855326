import DomTemplate.Proofs.Cutting
import DomTemplate.Proofs.Naming
import DomTemplate.Proofs.Outline

/-! Where marks come from. The reserved characters are kept out of a source, so that in its
masked text every opening character of a mark is followed by the number of a block and the
closing character. That stays so when a text is taken out between two boundaries, bytes that
are in no mark, and when stretches outside the marks are replaced by text that opens none. A
text of this kind splits into pieces and blocks without failing. -/

namespace DomTemplate
open Ascii

/-- Every mark in `s` is that of one of the first `count` blocks. -/
def WellMarked (count : Nat) (s : Bytes) : Prop :=
  ∀ rest, markOpen ++ rest <:+ s → ∃ k < count, Bytes.decimal k ++ markClose <+: rest

/-- The characters that marks are made of. -/
def reserved : List Bytes := [markOpen, markClose]

/-- `sub` does not start in `s`, whatever follows it. -/
def Unopened (sub s : Bytes) : Prop :=
  ∀ rest tail, sub ++ rest <:+ s ++ tail → sub ++ rest <:+ tail

/-- No mark opens in `s`, whatever follows it. -/
abbrev Unmarked (s : Bytes) : Prop := Unopened markOpen s

theorem Unopened.append {sub s t : Bytes} (first : Unopened sub s) (second : Unopened sub t) :
    Unopened sub (s ++ t) := by
  intro rest tail opens
  rw [List.append_assoc] at opens
  exact second rest tail (first rest (t ++ tail) opens)

/-- The first byte of a reserved character stands nowhere in `s`. -/
theorem unopened_of_forall {sub s : Bytes} (mem : sub ∈ reserved) (h : ∀ b ∈ s, b ≠ 0xEE) :
    Unopened sub s := by
  have first : ∃ u, sub = 0xEE :: u := by
    simp only [reserved, List.mem_cons, List.not_mem_nil, or_false] at mem
    rcases mem with rfl | rfl <;> exact ⟨_, rfl⟩
  obtain ⟨u, rfl⟩ := first
  intro rest tail opens
  induction s with
  | nil => exact opens
  | cons c cs ih =>
    rw [List.forall_mem_cons] at h
    rcases List.suffix_cons_iff.mp opens with same | later
    · exact absurd (List.cons.inj same).1.symm h.1
    · exact ih h.2 later

theorem unmarked_of_forall {s : Bytes} (h : ∀ b ∈ s, b ≠ 0xEE) : Unmarked s :=
  unopened_of_forall List.mem_cons_self h

theorem decimal_unmarked (n : Nat) : Unmarked (Bytes.decimal n) := by
  refine unmarked_of_forall fun b mem => ?_
  rintro rfl
  exact absurd (Bytes.isDigit_of_mem_decimal mem) (by decide)

/-- The closing character of a mark differs from the opening one in its last byte. -/
theorem markClose_unmarked : Unmarked markClose := by
  intro rest tail opens
  rcases List.suffix_cons_iff.mp opens with same | later
  · simp [markOpen] at same
  · exact unmarked_of_forall (s := [0x80, 0x81]) (by simp) rest tail later

theorem WellMarked.suffix {count : Nat} {s t : Bytes} (h : WellMarked count s) (ends : t <:+ s) :
    WellMarked count t :=
  fun rest opens => h rest (opens.trans ends)

/-- The mark of a block is well formed if the text after it is. -/
theorem wellMarked_mark {count n : Nat} {tail : Bytes} (known : n < count)
    (h : WellMarked count tail) : WellMarked count (mark n ++ tail) := by
  intro rest opens
  have whole : mark n ++ tail =
      0xEE :: ([0x80, 0x80] ++ (Bytes.decimal n ++ (markClose ++ tail))) := by
    simp [mark, markOpen]
  rw [whole] at opens
  rcases List.suffix_cons_iff.mp opens with same | later
  · refine ⟨n, known, tail, ?_⟩
    simpa [markOpen] using same.symm
  · have past := unmarked_of_forall (s := [0x80, 0x80]) (by simp) _ _ later
    exact h rest (markClose_unmarked _ _ (decimal_unmarked n _ _ past))

section Masked
variable {d : Delimiters} {state : MaskState} {context : BraceContext} {s : Bytes} {m : Masked}

/-- A byte that starts no other kind of piece was written as it is shown. -/
theorem Cut.copied_prefix {u : Bytes} (low : ∀ b ∈ u, b = 0x80 ∨ b = 0x81)
    (cut : Cut d state context s m) (shown : u <+: m.text) : u <+: s := by
  induction u generalizing state context s m with
  | nil => exact List.nil_prefix
  | cons c u ih =>
    rw [List.forall_mem_cons] at low
    obtain ⟨tail, split⟩ := shown
    have other : c ≠ lbrace ∧ c ≠ lt ∧ c ≠ lowerX ∧ c ≠ 0xEE := by
      rcases low.1 with rfl | rfl <;> decide
    cases cut with
    | nil => cases split
    | escape after =>
      rw [Masked.text_cons] at split
      cases d with
      | brace => exact absurd (List.cons.inj split).1 other.1
      | erb => exact absurd (List.cons.inj split).1 other.2.1
    | @block state context inner written rest m encloses nonempty allowed after =>
      rw [Masked.text_cons, Piece.shown, Block.shown] at split
      cases lead : (state.block d inner written rest).lead <;> rw [lead] at split
      · exact absurd (List.cons.inj split).1 other.2.2.2
      · exact absurd (List.cons.inj split).1 other.2.2.1
    | byte plain after =>
      obtain ⟨rfl, rest⟩ := List.cons.inj split
      exact List.cons_prefix_cons.mpr ⟨rfl, ih low.2 after ⟨tail, rest⟩⟩

/-- A reserved character before the rest of a masked text stands in the source. -/
theorem Cut.reserved_prefix {c : UInt8} {sub : Bytes} (mem : sub ∈ reserved)
    (after : Cut d state context s m) (opens : sub <+: c :: m.text) : sub <+: c :: s := by
  obtain ⟨u, rfl, low⟩ : ∃ u, sub = 0xEE :: u ∧ ∀ b ∈ u, b = 0x80 ∨ b = 0x81 := by
    simp only [reserved, List.mem_cons, List.not_mem_nil, or_false] at mem
    rcases mem with rfl | rfl
    · exact ⟨_, rfl, by simp⟩
    · exact ⟨_, rfl, by simp⟩
  rw [List.cons_prefix_cons] at opens ⊢
  exact ⟨opens.1, after.copied_prefix low opens.2⟩

theorem escape_unmarked (d : Delimiters) : Unmarked d.escape.2 := by
  refine unmarked_of_forall ?_
  cases d <;> decide +kernel

/-- The masked text of a source without reserved characters holds the marks of its blocks and
no others. -/
theorem Cut.wellMarked (cut : Cut d state context s m) (clean : ∀ rest, ¬markOpen ++ rest <:+ s)
    (start : Nat) : WellMarked (state.number + (m.blocksFrom start).length) m.text := by
  induction cut generalizing start with
  | nil =>
    intro rest opens
    cases List.suffix_nil.mp opens
  | @escape state context rest m after ih =>
    have later := ih (fun rest opens => clean rest (opens.trans (List.suffix_append _ _)))
      (start + d.escape.1.length)
    intro rest opens
    rw [Masked.text, List.flatMap_cons] at opens
    exact later rest (escape_unmarked d _ _ opens)
  | @block state context inner written rest m encloses nonempty allowed after ih =>
    have later := ih (fun rest opens => clean rest (opens.trans (List.suffix_append _ _)))
      (start + written.length)
    have count : state.number +
        (Masked.blocksFrom start (.block (state.block d inner written rest) :: m)).length =
        (state.push (.block (state.block d inner written rest))).number +
          (m.blocksFrom (start + written.length)).length := by
      simp only [Masked.blocksFrom, MaskState.push, MaskState.block, List.length_cons]
      omega
    rw [count, Masked.text, List.flatMap_cons]
    have marked := wellMarked_mark (n := state.number)
      (by simp only [MaskState.push]; omega) later
    intro rest opens
    simp only [Piece.shown, Block.shown, List.append_assoc] at opens
    refine marked rest (unmarked_of_forall ?_ _ _ opens)
    split <;> decide +kernel
  | @byte state context c rest m plain after ih =>
    have later := ih (fun rest opens => clean rest (opens.trans (List.suffix_cons _ _))) (start + 1)
    intro tail opens
    rw [Masked.text, List.flatMap_cons] at opens
    rcases List.suffix_cons_iff.mp opens with same | opens
    · -- the three bytes of the mark would stand in the source
      obtain ⟨later, split⟩ := after.reserved_prefix List.mem_cons_self ⟨tail, same⟩
      exact absurd (split ▸ List.suffix_rfl) (clean later)
    · exact later tail opens

end Masked

def isMarkByte (b : UInt8) : Bool := isDigit b || b ∈ markOpen ++ markClose

/-- A byte that is part of no mark and of no character reference before its end. -/
def isBoundary (b : UInt8) : Bool := b < 0x80 && !isAlphanumeric b

/-- What is read of a text that ends in `t` stops there, though `u` follows. -/
def Ends (t u : Bytes) : Prop :=
  (∀ b, u.head? = some b → isBoundary b = true) ∨ ∃ b, t.getLast? = some b ∧ isBoundary b = true

/-- `t` stands in `s` and ends at a boundary. -/
def Slice (t s : Bytes) : Prop := ∃ before after, s = before ++ t ++ after ∧ Ends t after

theorem Slice.of_suffix {t s : Bytes} (h : t <:+ s) : Slice t s := by
  obtain ⟨before, rfl⟩ := h
  exact ⟨before, [], by simp, .inl (by simp)⟩

theorem Slice.nil (s : Bytes) : Slice [] s := .of_suffix List.nil_suffix

theorem Slice.trans {r t s : Bytes} (inner : Slice r t) (outer : Slice t s) : Slice r s := by
  rcases List.eq_nil_or_concat r with rfl | ⟨body, last, rfl⟩
  · exact .nil s
  obtain ⟨before, after, rfl, ends⟩ := inner
  obtain ⟨before', after', rfl, ends'⟩ := outer
  refine ⟨before' ++ before, after ++ after', by simp, ?_⟩
  rcases ends with next | inside
  · cases after with
    | cons b after => exact .inl (by simpa using next)
    | nil =>
      -- the inner text ends where the outer one does
      rcases ends' with next | ⟨b, final, boundary⟩
      · exact .inl (by simpa using next)
      · exact .inr ⟨b, by simpa using final, boundary⟩
  · exact .inr inside

theorem Slice.of_suffix_right {r t s : Bytes} (inner : Slice r t) (h : t <:+ s) : Slice r s :=
  inner.trans (.of_suffix h)

theorem boundary_not_mark (b : UInt8) : isBoundary b = true → ¬isMarkByte b = true := by
  revert b
  exact Bytes.forall_byte (by decide +kernel)

/-- What holds bytes of marks only does not reach over the end of a slice. -/
theorem Ends.within {p t u : Bytes} (ends : Ends t u) (inside : ∀ b ∈ p, isMarkByte b = true)
    (h : p <+: t ++ u) : p <+: t := by
  rcases List.prefix_or_prefix_of_prefix h (List.prefix_append t u) with short | ⟨more, rfl⟩
  · exact short
  cases more with
  | nil => simp
  | cons c more =>
    -- otherwise a boundary, the last byte of `t` or the first of `u`, would be in the mark
    exfalso
    have next : u.head? = some c := by
      obtain ⟨tail, rfl⟩ := (List.prefix_append_right_inj t).mp h
      rfl
    rcases ends with boundary | ⟨b, final, boundary⟩
    · exact boundary_not_mark c (boundary c next) (inside c (by simp))
    · exact boundary_not_mark b boundary
        (inside b (List.mem_append_left _ (List.mem_of_getLast? final)))

theorem Ends.of_append (front : Bytes) {t u : Bytes} (ends : Ends (front ++ t) u)
    (nonempty : t ≠ []) : Ends t u := by
  rcases ends with next | ⟨b, final, boundary⟩
  · exact .inl next
  · rw [List.getLast?_append_of_ne_nil _ nonempty] at final
    exact .inr ⟨b, final, boundary⟩

theorem isMarkByte_mark (k : Nat) : ∀ b ∈ mark k, isMarkByte b = true := by
  have opener : ∀ b ∈ markOpen, isMarkByte b = true := by simp [markOpen, isMarkByte]
  have closer : ∀ b ∈ markClose, isMarkByte b = true := by simp [markClose, isMarkByte]
  simp only [mark, List.forall_mem_append]
  refine ⟨⟨opener, fun b digit => ?_⟩, closer⟩
  simp [isMarkByte, Bytes.isDigit_of_mem_decimal digit]

theorem WellMarked.slice {count : Nat} {s t : Bytes} (h : WellMarked count s) (slice : Slice t s) :
    WellMarked count t := by
  obtain ⟨before, after, rfl, ends⟩ := slice
  rintro rest ⟨front, rfl⟩
  obtain ⟨k, known, found⟩ := h (rest ++ after) ⟨before ++ front, by simp⟩
  have whole : mark k <+: markOpen ++ rest ++ after := by
    simpa [mark] using found
  have within := (ends.of_append front (by simp [markOpen])).within (isMarkByte_mark k) whole
  exact ⟨k, known, by simpa [mark] using within⟩

/-- The character `sub` does not start in `s`, and none that starts before `s` goes on in it. -/
structure Inert (sub s : Bytes) : Prop where
  opens : Unopened sub s
  head : ∃ b bs, s = b :: bs ∧ b ∉ sub.tail

/-- `new` may stand in place of `old` without bringing in one of the characters `subs` or breaking
or losing a mark. -/
structure Harmless (subs : List Bytes) (old new : Bytes) : Prop where
  inert : ∀ sub ∈ subs, Inert sub new
  starts : ∃ b bs, old = b :: bs ∧ isMarkByte b = false
  spares : ∀ b ∈ old, b ≠ 0xEE

theorem Harmless.mono {subs subs' : List Bytes} {old new : Bytes} (h : Harmless subs old new)
    (fewer : ∀ sub ∈ subs', sub ∈ subs) : Harmless subs' old new :=
  ⟨fun sub mem => h.inert sub (fewer sub mem), h.starts, h.spares⟩

/-- The second text is the first with stretches replaced as `p` allows. -/
inductive Patched (p : Bytes → Bytes → Prop) : Bytes → Bytes → Prop where
  | nil : Patched p [] []
  | copy (b : UInt8) {s t : Bytes} (rest : Patched p s t) : Patched p (b :: s) (b :: t)
  | patch {old new s t : Bytes} (allowed : p old new) (rest : Patched p s t) :
      Patched p (old ++ s) (new ++ t)

namespace Patched
variable {p : Bytes → Bytes → Prop} {subs : List Bytes} {sub s t : Bytes}

/-- What goes on with a character was copied. -/
theorem copied_prefix (harmless : ∀ old new, p old new → Harmless subs old new) (mem : sub ∈ subs)
    {u : Bytes} (inside : ∀ b ∈ u, b ∈ sub.tail) (h : Patched p s (u ++ t)) :
    ∃ s', s = u ++ s' ∧ Patched p s' t := by
  induction u generalizing s with
  | nil => exact ⟨s, rfl, h⟩
  | cons c u ih =>
    rw [List.forall_mem_cons] at inside
    generalize whole : c :: u ++ t = t' at h
    cases h with
    | nil => cases whole
    | copy b rest =>
      cases whole
      obtain ⟨s', rfl, later⟩ := ih inside.2 rest
      exact ⟨s', rfl, later⟩
    | patch allowed rest =>
      obtain ⟨b, bs, rfl, other⟩ := ((harmless _ _ allowed).inert sub mem).head
      rw [(List.cons.inj whole).1] at inside
      exact absurd inside.1 other

/-- A mark in the patched text was copied. -/
theorem opens (harmless : ∀ old new, p old new → Harmless subs old new) (opened : markOpen ∈ subs)
    (h : Patched p s t) {after : Bytes} (marked : markOpen ++ after <:+ t) :
    ∃ before, markOpen ++ before <:+ s ∧ Patched p before after := by
  induction h with
  | nil => cases List.suffix_nil.mp marked
  | @copy b s t rest ih =>
    rcases List.suffix_cons_iff.mp marked with same | later
    · -- no patch starts with the second or the third byte of a mark, so they are copied too
      obtain ⟨rfl, rfl⟩ : 0xEE = b ∧ markOpen.tail ++ after = t := List.cons.inj same
      obtain ⟨before, rfl, behind⟩ := rest.copied_prefix harmless opened fun _ mem => mem
      exact ⟨before, List.suffix_rfl, behind⟩
    · obtain ⟨before, found, rest⟩ := ih later
      exact ⟨before, found.trans (List.suffix_cons _ _), rest⟩
  | patch allowed rest ih =>
    obtain ⟨before, found, rest⟩ :=
      ih (((harmless _ _ allowed).inert markOpen opened).opens _ _ marked)
    exact ⟨before, found.trans (List.suffix_append _ _), rest⟩

/-- What holds bytes of marks only is copied as it stands. -/
theorem copies (harmless : ∀ old new, p old new → Harmless subs old new) {front : Bytes}
    (inside : ∀ b ∈ front, isMarkByte b = true) (h : Patched p (front ++ s) t) :
    ∃ t', t = front ++ t' ∧ Patched p s t' := by
  induction front generalizing t with
  | nil => exact ⟨t, rfl, h⟩
  | cons c front ih =>
    rw [List.forall_mem_cons] at inside
    generalize whole : c :: front ++ s = s' at h
    cases h with
    | nil => cases whole
    | copy b rest =>
      cases whole
      obtain ⟨t', rfl, later⟩ := ih inside.2 rest
      exact ⟨t', rfl, later⟩
    | patch allowed rest =>
      obtain ⟨b, bs, rfl, outside⟩ := (harmless _ _ allowed).starts
      rw [(List.cons.inj whole).1, outside] at inside
      cases inside.1

theorem wellMarked (harmless : ∀ old new, p old new → Harmless subs old new)
    (opened : markOpen ∈ subs) (h : Patched p s t) {count : Nat} (marked : WellMarked count s) :
    WellMarked count t := by
  intro after opens
  obtain ⟨before, found, rest⟩ := h.opens harmless opened opens
  obtain ⟨k, known, closes, rfl⟩ := marked before found
  have inside : ∀ b ∈ Bytes.decimal k ++ markClose, isMarkByte b = true := fun b mem =>
    isMarkByte_mark k b (by rw [mark, List.append_assoc]; exact List.mem_append_right _ mem)
  obtain ⟨after', rfl, -⟩ := rest.copies harmless inside
  exact ⟨k, known, List.prefix_append _ _⟩

end Patched

theorem Bytes.cut?_of_not_mem {a : UInt8} {before : Bytes} (absent : a ∉ before) (sep rest : Bytes) :
    Bytes.cut? (a :: sep) (before ++ a :: sep ++ rest) = some (before, rest) := by
  induction before with
  | nil =>
    rw [List.nil_append, List.cons_append, cut?, ← List.cons_append, dropPrefix?_eq_some.mpr rfl]
  | cons c before ih =>
    rw [List.mem_cons, not_or] at absent
    rw [List.cons_append, List.cons_append, cut?, dropPrefix?, if_neg absent.1, ih absent.2]
    rfl

theorem Bytes.signed?_decimal (n : Nat) : signed? (decimal n) = some (n : Int) := by
  cases written : decimal n with
  | nil => exact absurd written (decimal_ne_nil n)
  | cons c cs =>
    have digit : isDigit c = true := isDigit_of_mem_decimal (n := n) (by simp [written])
    have noDash : c ≠ dash := by rintro rfl; exact absurd digit (by decide)
    have noPlus : c ≠ plus := by rintro rfl; exact absurd digit (by decide)
    rw [signed?, if_neg noDash, if_neg noPlus, ← written, digits?_decimal]
    rfl

/-- A number that fits into 64 bits with a sign is read back from its digits. -/
theorem Bytes.int64?_decimal {n : Nat} (small : n < signedLimit) :
    int64? (decimal n) = some (n : Int) := by
  have inRange : (decide (-(signedLimit : Int) ≤ n) && decide ((n : Int) < signedLimit)) = true := by
    simp only [Bool.and_eq_true, decide_eq_true_eq]
    omega
  rw [int64?, signed?_decimal, Option.filter_some, if_pos inRange]

section Splitting
variable {blocks : List (Nat × Block)} {s : Bytes}

theorem Block.headOf_starts (b : Block) (head : Bytes) : b.headOf head <+: head := by
  rw [Block.headOf]
  split
  · exact Bytes.trimSuffix_starts _ _
  · exact List.prefix_rfl

/-- A mark that is found is that of a block, and stands between the texts before and after it. -/
theorem firstMark_block {head rest : Bytes} {offset : Nat} {b : Block}
    (h : firstMark blocks s = .block head offset b rest) :
    (offset, b) ∈ blocks ∧ head <+: s ∧ rest <:+ s := by
  unfold firstMark at h
  split at h
  · cases h
  rename_i before after opened
  obtain ⟨rfl, -⟩ := Bytes.cut?_spec (by decide) opened
  split at h
  · cases h
  rename_i number tail closed
  obtain ⟨rfl, -⟩ := Bytes.cut?_spec (by decide) closed
  split at h
  · cases h
  split at h
  · cases h
  split at h
  · rename_i found
    cases h
    refine ⟨List.mem_of_getElem? found, ?_, before ++ markOpen ++ number ++ markClose, by simp⟩
    exact (b.headOf_starts before).trans ⟨_, (List.append_assoc ..).symm⟩
  · cases h

/-- A mark with the number of a block is that of the block, if the number can be read back. -/
theorem firstMark_opened {head rest : Bytes} {k offset : Nat} {b : Block}
    (opened : Bytes.cut? markOpen s = some (head, Bytes.decimal k ++ markClose ++ rest))
    (found : blocks[k]? = some (offset, b)) :
    firstMark blocks s =
      if k < Bytes.signedLimit then .block (b.headOf head) offset b rest else .malformed := by
  have digits : (0xEE : UInt8) ∉ Bytes.decimal k := fun mem =>
    absurd (Bytes.isDigit_of_mem_decimal mem) (by decide)
  have closed : Bytes.cut? markClose (Bytes.decimal k ++ markClose ++ rest) =
      some (Bytes.decimal k, rest) := Bytes.cut?_of_not_mem digits [0x80, 0x81] rest
  simp only [firstMark, opened, closed]
  split_ifs with small
  · have natural : ¬(k : Int) < 0 := by omega
    simp only [Bytes.int64?_decimal small, natural, if_false, Int.toNat_natCast, found]
  · have large : Bytes.int64? (Bytes.decimal k) = none := by
      rw [Bytes.int64?, Bytes.signed?_decimal, Option.filter_some, if_neg]
      simp only [Bool.and_eq_true, decide_eq_true_eq]
      omega
    simp only [large]

/-- The first mark of a well marked text is that of a block. -/
theorem firstMark_of_wellMarked (marked : WellMarked blocks.length s)
    (few : blocks.length ≤ Bytes.signedLimit) :
    firstMark blocks s = .none ∨ ∃ head offset b rest, firstMark blocks s = .block head offset b rest := by
  cases opened : Bytes.cut? markOpen s with
  | none => exact .inl (by rw [firstMark, opened])
  | some cut =>
    obtain ⟨head, after⟩ := cut
    obtain ⟨rfl, -⟩ := Bytes.cut?_spec (by decide) opened
    obtain ⟨k, known, rest, rfl⟩ := marked after ⟨head, by simp⟩
    have first := firstMark_opened opened (List.getElem?_eq_getElem known)
    rw [if_pos (Nat.lt_of_lt_of_le known few)] at first
    exact .inr ⟨_, _, _, _, first⟩

theorem expand_of_wellMarked (src : Bytes) (marked : WellMarked blocks.length s)
    (few : blocks.length ≤ Bytes.signedLimit) : ∃ parts, expand src blocks s = .ok parts := by
  have known := firstMark_of_wellMarked marked few
  fun_induction expand src blocks s with
  | case1 | case2 => exact ⟨_, rfl⟩
  | case3 s text first | case4 s text n first => simp [first] at known
  | case5 s text head offset b rest first shorter ih =>
    have later := marked.suffix (firstMark_block first).2.2
    obtain ⟨parts, result⟩ := ih later (firstMark_of_wellMarked later few)
    rw [result]
    exact ⟨_, rfl⟩

theorem unmask_of_wellMarked (marked : WellMarked blocks.length s) (few : blocks.length ≤ Bytes.signedLimit) :
    ∃ text, unmask blocks s = .ok text := by
  have known := firstMark_of_wellMarked marked few
  fun_induction unmask blocks s with
  | case1 | case2 => exact ⟨_, rfl⟩
  | case3 s n first => simp [first] at known
  | case4 s head offset b rest first shorter ih =>
    have later := marked.suffix (firstMark_block first).2.2
    obtain ⟨text, result⟩ := ih later (firstMark_of_wellMarked later few)
    rw [result]
    exact ⟨_, rfl⟩

end Splitting

end DomTemplate
