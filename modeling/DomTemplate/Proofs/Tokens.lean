import DomTemplate.Markup.Token
import DomTemplate.Proofs.Marks
import DomTemplate.Template.RawAttribute

/-! What tokens and attributes are read from. Whatever a token shows, names or holds as a
value was taken out of the text between boundaries, so that it cuts no mark and no character
reference in two; and a token with what is left of the text gives the text back. -/

namespace DomTemplate
open Ascii

/-- A text up to a boundary or the end. -/
theorem Slice.of_append {s t rest : Bytes} (whole : t ++ rest = s)
    (next : ∀ b, rest.head? = some b → isBoundary b = true) : Slice t s :=
  ⟨[], rest, by simp [whole], .inl next⟩

theorem dropWhile_stops {p : UInt8 → Bool} {s : Bytes} {b : UInt8}
    (head : (s.dropWhile p).head? = some b) : p b = false := by
  have failed := List.head?_dropWhile_not p s
  rw [head] at failed
  simpa using failed

theorem Slice.of_takeWhile {p : UInt8 → Bool} (stops : ∀ b, p b = false → isBoundary b = true)
    (s : Bytes) : Slice (s.takeWhile p) s :=
  .of_append List.takeWhile_append_dropWhile fun b head => stops b (dropWhile_stops head)

/-- A text that ends in a boundary. -/
theorem Slice.of_last {s t rest : Bytes} {b : UInt8} (whole : t ++ [b] ++ rest = s)
    (boundary : isBoundary b = true) : Slice (t ++ [b]) s :=
  ⟨[], rest, by simp [← whole], .inr ⟨b, by simp, boundary⟩⟩

namespace Markup

theorem skipSpace_suffix (s : Bytes) : skipSpace s <:+ s := List.dropWhile_suffix _

theorem afterKey_suffix (s : Bytes) : afterKey s <:+ s := by
  cases s with
  | nil => exact List.suffix_rfl
  | cons c cs =>
    rw [afterKey]
    split
    · exact (List.dropWhile_suffix _).trans (List.suffix_cons _ _)
    · exact List.dropWhile_suffix _

theorem keyOf_append (s : Bytes) : keyOf s ++ afterKey s = s :=
  List.suffix_iff_eq_append.mp (afterKey_suffix s)

theorem slice_keyOf (s : Bytes) : Slice (keyOf s) s := by
  refine .of_append (keyOf_append s) fun b head => ?_
  have boundary : ∀ b, inKey b = false → isBoundary b = true := Bytes.forall_byte (by decide +kernel)
  cases s with
  | nil => cases head
  | cons c cs =>
    rw [afterKey] at head
    split at head <;> exact boundary b (dropWhile_stops head)

theorem writtenValue?_suffix {s value rest : Bytes} (h : writtenValue? s = some (value, rest)) :
    rest <:+ s := by
  cases s with
  | nil => cases h
  | cons c cs =>
    rw [writtenValue?] at h
    split_ifs at h with empty quoted
    · cases h
      exact List.suffix_rfl
    · obtain ⟨rfl, -⟩ := Bytes.cut?_spec (List.cons_ne_nil _ _) h
      exact (List.suffix_append _ _).trans (List.suffix_cons _ _)
    · have ends : (c :: cs).dropWhile inUnquoted <:+ c :: cs := List.dropWhile_suffix _
      split at h
      · cases h
      · rename_i d after found
        rw [found] at ends
        cases h
        split
        · exact ends
        · exact (List.suffix_cons _ _).trans ends

theorem valueSpan?_suffix {s value rest : Bytes} (h : valueSpan? s = some (value, rest)) :
    rest <:+ s := by
  have spaces := skipSpace_suffix s
  rw [valueSpan?] at h
  split at h
  · cases h
  · rename_i c cs found
    rw [found] at spaces
    have later : cs <:+ s := (List.suffix_cons _ _).trans spaces
    split_ifs at h with ended valued
    · cases h
      exact later
    · exact (writtenValue?_suffix h).trans ((skipSpace_suffix cs).trans later)
    · cases h
      exact spaces

/-- A tag ends in `>`, which stands right before the rest. -/
theorem tagEndSpan?_suffix {afterSlash : Bool} {s rest : Bytes} {tail : TagEnd}
    (h : tagEndSpan? afterSlash s = some (tail, rest)) : gt :: rest <:+ s := by
  fun_induction tagEndSpan? afterSlash s generalizing tail rest with
  | case1 | case3 => cases h
  | case2 afterSlash s cs found =>
    cases h
    exact found ▸ skipSpace_suffix s
  | case4 afterSlash s c cs found more attr after span shorter fits ih =>
    obtain ⟨⟨t, r⟩, result, same⟩ := Option.map_eq_some_iff.mp h
    cases same
    obtain ⟨⟨value, r'⟩, valued, same⟩ := Option.map_eq_some_iff.mp span
    cases same
    have spaces : c :: cs <:+ s := found ▸ skipSpace_suffix s
    exact (ih result).trans ((valueSpan?_suffix valued).trans ((afterKey_suffix _).trans spaces))

theorem tagSpan?_suffix {s rest : Bytes} {parts : TagParts} (h : tagSpan? s = some (parts, rest)) :
    gt :: rest <:+ s := by
  obtain ⟨⟨tail, r⟩, found, same⟩ := Option.map_eq_some_iff.mp h
  cases same
  exact (tagEndSpan?_suffix found).trans (List.dropWhile_suffix _)

theorem angleSpan_suffix (s : Bytes) : (angleSpan s).2 <:+ s :=
  (List.drop_suffix _ _).trans (List.dropWhile_suffix _)

/-- A byte that a comment ends in. -/
def inCommentEnd (b : UInt8) : Bool := b == dash || b == bang || b == gt

theorem inCommentEnd_boundary (b : UInt8) : inCommentEnd b = true → isBoundary b = true := by
  revert b
  exact Bytes.forall_byte (by decide +kernel)

/-- `s` is a text, the bytes that end it, and what is left, which is nothing without them. -/
structure Closes (s text rest : Bytes) (closer : Bytes) : Prop where
  split : s = text ++ (closer ++ rest)
  ends : ∀ b ∈ closer, inCommentEnd b = true
  last : closer = [] → rest = []

theorem Closes.slice {s text rest closer : Bytes} (h : Closes s text rest closer) : Slice text s := by
  refine .of_append h.split.symm fun b head => ?_
  cases closer with
  | nil => rw [h.last rfl] at head; cases head
  | cons c closer =>
    cases head
    exact inCommentEnd_boundary b (h.ends b List.mem_cons_self)

theorem closes_angleSpan (s : Bytes) : ∃ closer, Closes s (angleSpan s).1 (angleSpan s).2 closer := by
  have whole : s.takeWhile (· != gt) ++ s.dropWhile (· != gt) = s := List.takeWhile_append_dropWhile
  rw [angleSpan]
  cases left : s.dropWhile (· != gt) with
  | nil =>
    rw [left] at whole
    exact ⟨[], whole.symm, by simp, fun _ => rfl⟩
  | cons b rest =>
    have head : (s.dropWhile (· != gt)).head? = some b := by rw [left]; rfl
    have stops := dropWhile_stops head
    rw [left] at whole
    refine ⟨[b], whole.symm, List.forall_mem_singleton.mpr ?_, by simp⟩
    rw [bne_eq_false_iff_eq.mp stops]
    rfl

theorem slice_angleSpan (s : Bytes) : Slice (angleSpan s).1 s := by
  obtain ⟨closer, closes⟩ := closes_angleSpan s
  exact closes.slice

theorem closes_abruptComment (seen : Bytes) : ∃ closer, Closes seen (abruptComment seen) [] closer := by
  have ends : ∀ t ∈ [utf8 "--!", utf8 "--", utf8 "-"], ∀ b ∈ t, inCommentEnd b = true := by
    decide +kernel
  rw [abruptComment]
  split
  · rename_i kept found
    obtain ⟨t, mem, dropped⟩ := List.exists_of_findSome?_eq_some found
    refine ⟨t, ?_, ends t mem, fun _ => rfl⟩
    rw [List.append_nil]
    exact Bytes.dropSuffix?_eq_some.mp dropped
  · exact ⟨[], by simp, by simp, fun _ => rfl⟩

/-- The bytes at the end of `seen`, which may belong to the end of the comment. -/
structure CommentEnd (dashes : Nat) (onlyDashes afterBang : Bool) (seen : Bytes) : Prop where
  dashes : ∀ b ∈ seen.take dashes, inCommentEnd b = true
  only : onlyDashes = true → ∀ b ∈ seen, inCommentEnd b = true
  bang : afterBang = true → ∀ b ∈ seen.take 3, inCommentEnd b = true

theorem closes_seen {seen : Bytes} (rest : Bytes) (n : Nat)
    (ends : ∀ b ∈ seen.take n, inCommentEnd b = true) :
    ∃ closer, Closes (seen.reverse ++ gt :: rest) (seen.drop n).reverse rest closer := by
  refine ⟨(seen.take n).reverse ++ [gt], ?_, ?_, by simp⟩
  · rw [List.append_assoc, ← List.append_assoc, ← List.reverse_append, List.take_append_drop]
    rfl
  · rw [List.forall_mem_append]
    exact ⟨fun b mem => ends b (List.mem_reverse.mp mem), List.forall_mem_singleton.mpr rfl⟩

theorem closes_commentSpan {dashes : Nat} {onlyDashes afterBang : Bool} {seen : Bytes}
    (ending : CommentEnd dashes onlyDashes afterBang seen) (s : Bytes) :
    ∃ closer, Closes (seen.reverse ++ s) (commentSpan dashes onlyDashes afterBang seen s).1
      (commentSpan dashes onlyDashes afterBang seen s).2 closer := by
  induction s generalizing dashes onlyDashes afterBang seen with
  | nil =>
    rw [commentSpan, List.append_nil]
    exact closes_abruptComment _
  | cons c cs ih =>
    have goOn {dashes : Nat} {onlyDashes afterBang : Bool}
        (ending : CommentEnd dashes onlyDashes afterBang (c :: seen)) :
        ∃ closer, Closes (seen.reverse ++ c :: cs)
          (commentSpan dashes onlyDashes afterBang (c :: seen) cs).1
          (commentSpan dashes onlyDashes afterBang (c :: seen) cs).2 closer := by
      have later := ih ending
      rwa [List.reverse_cons, List.append_assoc, List.singleton_append] at later
    rw [commentSpan]
    -- what ends the comment is cut off `seen` again
    have dash_ends : inCommentEnd dash = true := by decide
    have bang_ends : inCommentEnd bang = true := by decide
    by_cases banged : afterBang = true
    · rw [if_pos banged]
      split
      · rename_i closed
        rw [closed]
        exact closes_seen cs 3 (ending.bang banged)
      · refine goOn ⟨?_, by simp, by simp⟩
        by_cases dashed : c = dash <;> simp [dashed, dash_ends]
    rw [if_neg banged]
    by_cases dashed : c = dash
    · rw [if_pos dashed]
      refine goOn ⟨?_, fun only => ?_, by simp⟩
      · rw [List.take_succ_cons, List.forall_mem_cons, dashed]
        exact ⟨dash_ends, ending.dashes⟩
      · rw [List.forall_mem_cons, dashed]
        exact ⟨dash_ends, ending.only only⟩
    rw [if_neg dashed]
    split
    · rename_i closed
      rw [closed.1]
      refine closes_seen cs 2 fun b mem => ?_
      rcases closed.2 with two | only
      · exact ending.dashes b (List.take_subset_take_left _ two mem)
      · exact ending.only only b (List.mem_of_mem_take mem)
    · refine goOn ⟨by simp, by simp, fun banged => ?_⟩
      rw [decide_eq_true_eq] at banged
      rw [List.take_succ_cons, List.forall_mem_cons, banged.1]
      exact ⟨bang_ends, fun b mem =>
        ending.dashes b (List.take_subset_take_left _ banged.2 mem)⟩

theorem closes_comment (s : Bytes) : ∃ closer, Closes s (commentSpan 0 true false [] s).1
    (commentSpan 0 true false [] s).2 closer := by
  have start : CommentEnd 0 true false [] := ⟨by simp, by simp, by simp⟩
  exact closes_commentSpan start s

theorem commentSpan_slice (s : Bytes) :
    (commentSpan 0 true false [] s).2 <:+ s ∧ Slice (commentSpan 0 true false [] s).1 s := by
  obtain ⟨closer, closes⟩ := closes_comment s
  exact ⟨⟨_, (List.append_assoc ..).trans closes.split.symm⟩, closes.slice⟩

/-- What is left after a declaration ends the text, and a comment is a slice of it. -/
theorem declarationSpan_reads (s : Bytes) :
    (declarationSpan s).2 <:+ s ∧ ∀ text, (declarationSpan s).1 = .comment text → Slice text s := by
  rw [declarationSpan]
  split
  · refine ⟨List.nil_suffix, fun text same => ?_⟩
    cases same
    exact .of_suffix List.suffix_rfl
  split
  · have ends : s.drop 2 <:+ s := List.drop_suffix _ _
    obtain ⟨rest, text⟩ := commentSpan_slice (s.drop 2)
    refine ⟨rest.trans ends, fun text' same => ?_⟩
    cases same
    exact text.of_suffix_right ends
  split
  · refine ⟨?_, nofun⟩
    exact (angleSpan_suffix _).trans ((List.dropWhile_suffix _).trans (List.drop_suffix _ _))
  split
  · refine ⟨List.nil_suffix, fun text same => ?_⟩
    cases same
    exact .nil s
  · refine ⟨angleSpan_suffix s, fun text same => ?_⟩
    cases same
    exact slice_angleSpan s

theorem head_of_closesHere {name cs : Bytes} {c : UInt8} (h : closesHere name (c :: cs) = true) :
    c = lt := by
  cases cs with
  | nil => cases h
  | cons d ds => simp_all [closesHere]

theorem rawSpan_closes (name s : Bytes) :
    (rawSpan name s).2 = [] ∨ closesHere name (rawSpan name s).2 = true := by
  induction s with
  | nil => exact .inl rfl
  | cons c cs ih =>
    rw [rawSpan]
    split
    · rename_i closes
      exact .inr closes
    · exact ih

theorem scriptSpan_closes (state : ScriptState) (s : Bytes) :
    (scriptSpan state s).2 = [] ∨
      closesHere RawElement.script.name (scriptSpan state s).2 = true := by
  induction s generalizing state with
  | nil => exact .inl rfl
  | cons c cs ih =>
    rw [scriptSpan]
    split
    · rename_i closes
      rw [Bool.and_eq_true] at closes
      exact .inr closes.2
    · exact ih _

/-- The content of a raw element ends before its closing tag or with the text. -/
theorem RawElement.span_closes (e : RawElement) (s : Bytes) :
    (e.span s).2 = [] ∨ closesHere e.name (e.span s).2 = true := by
  cases e with
  | plaintext => exact .inl rfl
  | script => exact scriptSpan_closes .plain s
  | _ => exact rawSpan_closes _ s

theorem head_span {element : RawElement} {s : Bytes} {b : UInt8}
    (head : (element.span s).2.head? = some b) : b = lt := by
  obtain ⟨rest, left⟩ := List.head?_eq_some_iff.mp head
  have closes := element.span_closes s
  rw [left] at closes
  exact head_of_closesHere (closes.resolve_left (List.cons_ne_nil b rest))

theorem slice_span (element : RawElement) (s : Bytes) : Slice (element.span s).1 s := by
  refine .of_append (RawElement.span_append element s) fun b head => ?_
  rw [head_span head]
  decide

theorem head_of_markupStarts {cs : Bytes} {c : UInt8} (h : markupStarts (c :: cs) = true) :
    c = lt := by
  cases cs with
  | nil => cases h
  | cons d ds => simp_all [markupStarts]

theorem head_textSpan {s : Bytes} {b : UInt8} (head : (textSpan s).2.head? = some b) : b = lt := by
  induction s with
  | nil => cases head
  | cons c cs ih =>
    rw [textSpan] at head
    split at head
    · rename_i starts
      cases head
      exact head_of_markupStarts starts
    · exact ih head

theorem slice_textSpan (s : Bytes) : Slice (textSpan s).1 s := by
  refine .of_append (textSpan_append s) fun b head => ?_
  rw [head_textSpan head]
  decide

/-- What a token of the text `s` was taken from. A tag has a letter where its name starts. -/
def Token.Reads (s : Bytes) : Token → Prop
  | .text _ shown =>
    ∃ t, Slice t s ∧ (shown = shownText t ∨ ∃ element : RawElement, shown = element.shown t)
  | .startTag raw _ => Slice raw s ∧ ∃ a b rest, raw = a :: b :: rest ∧ isLetter b = true
  | .endTag raw => Slice raw s ∧ ∃ a b c rest, raw = a :: b :: c :: rest ∧ isLetter c = true
  | .comment _ shown => ∃ t, Slice t s ∧ shown = shownComment t
  | .doctype .. | .unfinished _ => True

theorem consumed_append {s rest : Bytes} (h : rest <:+ s) : consumed s rest ++ rest = s :=
  List.suffix_iff_eq_append.mp h

/-- The text of a tag: it goes on to the `>` before the rest. -/
theorem tag_raw (front : Bytes) {body rest : Bytes} {c : UInt8} {parts : TagParts}
    (letter : isLetter c = true) (h : tagSpan? (c :: body) = some (parts, rest)) :
    ∃ middle, consumed (front ++ c :: body) rest = front ++ c :: (middle ++ [gt]) ∧
      front ++ c :: (middle ++ [gt]) ++ rest = front ++ c :: body := by
  -- the name starts with a letter, so that the `>` comes after it
  have ends : gt :: rest <:+ body := by
    rcases List.suffix_cons_iff.mp (tagSpan?_suffix h) with same | later
    · rw [← (List.cons.inj same).1] at letter
      exact absurd letter (by decide)
    · exact later
  obtain ⟨middle, rfl⟩ := ends
  have whole : front ++ c :: (middle ++ [gt]) ++ rest = front ++ c :: (middle ++ gt :: rest) := by
    simp
  refine ⟨middle, ?_, whole⟩
  rw [← whole, consumed, List.length_append, Nat.add_sub_cancel, List.take_left']
  rfl

theorem slice_tag_raw {s front middle rest : Bytes} {c : UInt8}
    (whole : front ++ c :: (middle ++ [gt]) ++ rest = s) : Slice (front ++ c :: (middle ++ [gt])) s := by
  have shape : front ++ c :: (middle ++ [gt]) = front ++ c :: middle ++ [gt] := by simp
  rw [shape] at whole ⊢
  exact .of_last whole (by decide)

theorem commentToken_reads {s text rest : Bytes} (slice : Slice text s) (ends : rest <:+ s) :
    (commentToken s text rest).1.raw ++ (commentToken s text rest).2 = s ∧
      (commentToken s text rest).1.Reads s :=
  ⟨consumed_append ends, text, slice, rfl⟩

theorem closingToken_reads (a b : UInt8) (body : Bytes) :
    (closingToken (a :: b :: body) body).1.raw ++ (closingToken (a :: b :: body) body).2 =
        a :: b :: body ∧
      (closingToken (a :: b :: body) body).1.Reads (a :: b :: body) := by
  have ends : body <:+ a :: b :: body := (List.suffix_cons _ _).trans (List.suffix_cons _ _)
  cases body with
  | nil => exact ⟨rfl, _, .of_suffix List.suffix_rfl, .inl rfl⟩
  | cons c cs =>
    rw [closingToken]
    split
    · exact commentToken_reads (.nil _) ((List.suffix_cons _ _).trans ends)
    split
    · rename_i letter
      cases found : tagSpan? (c :: cs) with
      | none => exact ⟨by simp [Token.raw], trivial⟩
      | some span =>
        obtain ⟨parts, rest⟩ := span
        obtain ⟨middle, raw, whole⟩ := tag_raw [a, b] letter found
        refine ⟨?_, ?_, ?_⟩
        · exact (congrArg (· ++ rest) raw).trans whole
        · exact raw ▸ slice_tag_raw whole
        · exact ⟨a, b, c, _, raw, letter⟩
    · exact commentToken_reads ((slice_angleSpan _).of_suffix_right ends)
        ((angleSpan_suffix _).trans ends)

theorem markupToken_reads (s : Bytes) :
    (markupToken s).1.raw ++ (markupToken s).2 = s ∧ (markupToken s).1.Reads s := by
  rcases s with _ | ⟨a, _ | ⟨b, rest⟩⟩
  · exact ⟨rfl, _, .of_suffix List.suffix_rfl, .inl rfl⟩
  · exact ⟨rfl, _, .of_suffix List.suffix_rfl, .inl rfl⟩
  rw [markupToken]
  split
  · rename_i letter
    rw [startTagToken]
    cases found : tagSpan? (b :: rest) with
    | none => exact ⟨by simp [Token.raw], trivial⟩
    | some span =>
      obtain ⟨parts, after⟩ := span
      obtain ⟨middle, raw, whole⟩ := tag_raw [a] letter found
      refine ⟨?_, ?_, ?_⟩
      · exact (congrArg (· ++ after) raw).trans whole
      · exact raw ▸ slice_tag_raw whole
      · exact ⟨a, b, _, raw, letter⟩
  split
  · exact closingToken_reads a b rest
  split
  · have ends : rest <:+ a :: b :: rest := (List.suffix_cons _ _).trans (List.suffix_cons _ _)
    obtain ⟨left, comment⟩ := declarationSpan_reads rest
    rw [declarationToken]
    split
    · rename_i text after found
      rw [found] at left comment
      exact commentToken_reads ((comment text rfl).of_suffix_right ends) (left.trans ends)
    · rename_i text after found
      rw [found] at left
      exact ⟨consumed_append (left.trans ends), trivial⟩
  · have ends : b :: rest <:+ a :: b :: rest := List.suffix_cons _ _
    exact commentToken_reads ((slice_angleSpan _).of_suffix_right ends)
      ((angleSpan_suffix _).trans ends)

/-- A token and what is left of the text give the text back. -/
theorem firstToken_reads (inside : Option RawElement) (s : Bytes) :
    (firstToken inside s).1.raw ++ (firstToken inside s).2 = s ∧
      (firstToken inside s).1.Reads s := by
  have plain : (plainToken s).1.raw ++ (plainToken s).2 = s ∧ (plainToken s).1.Reads s := by
    rw [plainToken]
    split
    · exact markupToken_reads s
    · exact ⟨textSpan_append s, _, slice_textSpan s, .inl rfl⟩
  unfold firstToken
  split
  · rename_i element
    split
    · exact plain
    · exact ⟨RawElement.span_append element s, _, slice_span element s, .inr ⟨element, rfl⟩⟩
  · exact plain

end Markup

theorem RawValue.read_reads (s : Bytes) :
    (RawValue.read s).2 <:+ s ∧ Slice (RawValue.read s).1.text s := by
  cases s with
  | nil => exact ⟨List.suffix_rfl, .nil _⟩
  | cons c cs =>
    have later : cs <:+ c :: cs := List.suffix_cons _ _
    rw [read]
    cases mark : Quote.ofByte? c with
    | none =>
      exact ⟨List.dropWhile_suffix _, .of_takeWhile (Bytes.forall_byte (by decide +kernel)) _⟩
    | some mark' =>
      have boundary : isBoundary c = true := by
        have quotes : ∀ b, Quote.ofByte? b ≠ none → isBoundary b = true :=
          Bytes.forall_byte (by decide +kernel)
        exact quotes c (by simp [mark])
      cases closed : Bytes.cut? [c] cs with
      | some cut =>
        obtain ⟨text, rest⟩ := cut
        obtain ⟨rfl, -⟩ := Bytes.cut?_spec (List.cons_ne_nil _ _) closed
        refine ⟨(List.suffix_append _ _).trans later, ?_⟩
        have inner : Slice text (text ++ [c] ++ rest) :=
          .of_append (List.append_assoc _ _ _).symm (by simpa using boundary)
        exact inner.of_suffix_right later
      | none =>
        refine ⟨List.nil_suffix, ?_⟩
        cases dropped : Bytes.dropSuffix? [gt] cs with
        | none =>
          simp only [Bytes.trimSuffix, dropped, Option.getD_none]
          exact .of_suffix later
        | some kept =>
          have inner : Slice kept cs :=
            .of_append (Bytes.dropSuffix?_eq_some.mp dropped).symm (by decide +kernel)
          simp only [Bytes.trimSuffix, dropped, Option.getD_some]
          exact inner.of_suffix_right later

namespace RawAttribute

theorem readValue_reads (s : Bytes) :
    (readValue s).2 <:+ s ∧ ∀ v, (readValue s).1 = some v → Slice v.text s := by
  have spaces := Markup.skipSpace_suffix s
  rw [readValue]
  split
  · exact ⟨List.nil_suffix, nofun⟩
  · rename_i c cs found
    rw [found] at spaces
    have later : cs <:+ s := (List.suffix_cons _ _).trans spaces
    split
    · exact ⟨later, nofun⟩
    split
    · have value : Markup.skipSpace cs <:+ s := (Markup.skipSpace_suffix cs).trans later
      obtain ⟨rest, text⟩ := RawValue.read_reads (Markup.skipSpace cs)
      refine ⟨rest.trans value, fun v same => ?_⟩
      cases same
      exact text.of_suffix_right value
    · exact ⟨spaces, nofun⟩

/-- The key and the value of `a` stand in the tag `s`, and the key is one of its bytes. -/
structure Reads (s : Bytes) (size : Nat) (a : RawAttribute) : Prop where
  key : Slice a.key s
  value : ∀ v, a.value = some v → Slice v.text s
  offset : 0 < size → a.offset < size

theorem Reads.of_suffix {s t : Bytes} {size : Nat} {a : RawAttribute} (h : Reads t size a)
    (ends : t <:+ s) : Reads s size a :=
  ⟨h.key.of_suffix_right ends, fun v same => (h.value v same).of_suffix_right ends, h.offset⟩

theorem readAll_reads (size : Nat) (s : Bytes) : ∀ a ∈ readAll size s, a.Reads s size := by
  fun_induction readAll size s with
  | case1 | case2 => simp
  | case3 s c cs found more shorter fits ih =>
    have here : c :: cs <:+ s := found ▸ Markup.skipSpace_suffix s
    have after := (Markup.afterKey_suffix (c :: cs)).trans here
    obtain ⟨rest, value⟩ := readValue_reads (Markup.afterKey (c :: cs))
    rw [List.forall_mem_cons]
    refine ⟨⟨(Markup.slice_keyOf _).of_suffix_right here, fun v same => ?_, fun positive => ?_⟩,
      fun a mem => (ih a mem).of_suffix (rest.trans after)⟩
    · exact (value v same).of_suffix_right after
    · rw [List.length_cons]
      exact Nat.sub_lt positive (Nat.succ_pos _)

theorem mem_of_mem_distinct {seen : List Bytes} {as : List RawAttribute} {a : RawAttribute}
    (h : a ∈ distinct seen as) : a ∈ as := by
  fun_induction distinct seen as with
  | case1 => exact h
  | case2 seen b as known ih => exact List.mem_cons_of_mem _ (ih h)
  | case3 seen b as fresh ih =>
    rcases List.mem_cons.mp h with rfl | later
    · exact List.mem_cons_self
    · exact List.mem_cons_of_mem _ (ih later)

theorem ofTag_reads {raw rest : Bytes} (ends : rest <:+ raw) :
    ∀ a ∈ ofTag raw rest, a.Reads raw raw.length :=
  fun a mem => (readAll_reads raw.length rest a (mem_of_mem_distinct mem)).of_suffix ends

end RawAttribute
end DomTemplate
