import DomTemplate.Proofs.Pieces

/-! The attributes of a start tag, read twice. The reader of the markup finds where a tag ends, and
keeps of an attribute its key and its value. The lexer starts behind the name of a tag that was found
so, and keeps apart a key without a value and one with an empty value. It goes round by round, each of
which takes one attribute, and comes to the same end with the same attributes. -/

namespace DomTemplate
open Ascii Bytes Markup

namespace RawAttribute

/-- Where a value is written, in the text `s` behind a key: after an equals sign and white space. -/
def written? (s : Bytes) : Option Bytes :=
  match skipSpace s with
  | [] => none
  | c :: cs => if c = equals then some (skipSpace cs) else none

/-- The value starts with a quote that nothing closes. -/
def OpenQuote (s : Bytes) : Prop := ∃ c cs, s = c :: cs ∧ Quote.ofByte? c ≠ none ∧ cut? [c] cs = none

/-- The value of the key that starts `s` is quoted, and its second quote is missing. -/
def LeftOpen (s : Bytes) : Prop := ∃ value, written? (afterKey s) = some value ∧ OpenQuote value

/-- The attribute whose key starts `s`, the end of a tag of `size` bytes. -/
def starting (size : Nat) (s : Bytes) : RawAttribute where
  key := keyOf s
  value := (readValue (afterKey s)).1
  offset := size - s.length

/-- The rounds of the lexer from `s` to its return, all of them at attributes that are `good`: what it
takes, and what is left then. -/
inductive Rounds (size : Nat) (good : Bytes → Prop) : Bytes → List RawAttribute → Bytes → Prop where
  | stop {s : Bytes} (ends : skipSpace s = [] ∨ (skipSpace s).head? = some gt) :
      Rounds size good s [] (skipSpace s)
  | round {s : Bytes} {c : UInt8} {cs : Bytes} {as : List RawAttribute} {rest : Bytes}
      (first : skipSpace s = c :: cs) (more : c ≠ gt) (here : good (c :: cs))
      (later : Rounds size good (readValue (afterKey (c :: cs))).2 as rest) :
      Rounds size good s (starting size (c :: cs) :: as) rest

section Rounds
variable {size : Nat} {good : Bytes → Prop} {s rest : Bytes} {as : List RawAttribute}

/-- Each round takes at least a byte. -/
theorem exists_rounds (size : Nat) (s : Bytes) :
    ∃ rest, Rounds size (fun _ => True) s (readAll size s) rest ∧ (readAll size s).length ≤ s.length := by
  fun_induction readAll size s with
  | case1 s none => exact ⟨_, .stop (.inl none), Nat.zero_le _⟩
  | case2 s cs closed => exact ⟨_, .stop (.inr (by rw [closed]; rfl)), Nat.zero_le _⟩
  | case3 s c cs first more shorter fits ih =>
    obtain ⟨rest, rounds, bound⟩ := ih
    exact ⟨rest, .round first more trivial rounds, by rw [List.length_cons] at *; omega⟩

/-- A key stands where the lexer says, and has a value if an equals sign follows it. -/
theorem Rounds.placed (h : Rounds size good s as rest) {raw : Bytes} (ends : s <:+ raw)
    (whole : size = raw.length) :
    ∀ a ∈ as, a.key <+: raw.drop a.offset ∧
      (a.value.isSome = true ↔
        (skipSpace (raw.drop (a.offset + a.key.length))).head? = some equals) := by
  induction h with
  | stop => simp
  | @round s c cs as rest first more here later ih =>
    have start : c :: cs <:+ raw := (first ▸ skipSpace_suffix s).trans ends
    have after := (readValue_reads (afterKey (c :: cs))).1.trans (afterKey_suffix (c :: cs))
    rw [List.forall_mem_cons]
    refine ⟨?_, ih (after.trans start)⟩
    have split : raw.drop (starting size (c :: cs)).offset = keyOf (c :: cs) ++ afterKey (c :: cs) := by
      obtain ⟨front, rfl⟩ := start
      simp [starting, whole, keyOf_append]
    have behind : raw.drop ((starting size (c :: cs)).offset + (keyOf (c :: cs)).length) =
        afterKey (c :: cs) := by
      rw [← List.drop_drop, split, List.drop_left]
    refine ⟨⟨_, split.symm⟩, ?_⟩
    change _ ↔ (skipSpace (raw.drop (_ + (keyOf (c :: cs)).length))).head? = _
    rw [behind]
    simp only [starting, readValue]
    cases skipSpace (afterKey (c :: cs)) with
    | nil => simp
    | cons d ds =>
      have other : slash ≠ equals := by decide
      by_cases ended : d = slash
      · simp [ended, other]
      · by_cases equal : d = equals <;> simp [equal, ended, other.symm]

end Rounds

/-- The text of the value, which is empty if there is none. -/
def written (a : RawAttribute) : Bytes × Bytes := (a.key, a.value.elim [] RawValue.text)

/-- Two attributes have one name, in whatever case their keys are written. -/
def sameName (p q : Bytes × Bytes) : Bool := Bytes.lower p.1 == Bytes.lower q.1

/-- Of the attributes with a key, the first of each name is kept. -/
theorem map_distinct (seen : List Bytes) (as : List RawAttribute) :
    (distinct seen as).map written =
      (((as.filter fun a => !a.key.isEmpty).map written).filter
        fun p => !seen.contains (Bytes.lower p.1)).eraseDupsBy sameName := by
  fun_induction distinct seen as with
  | case1 => rfl
  | case2 seen a as known ih =>
    rw [ih]
    by_cases empty : a.key.isEmpty = true
    · rw [List.filter_cons_of_neg (by simp [empty])]
    · have found : seen.contains (Bytes.lower a.key) = true := by simpa [empty] using known
      rw [List.filter_cons_of_pos (by simpa using empty), List.map_cons,
        List.filter_cons_of_neg (by simpa [written] using found)]
  | case3 seen a as fresh ih =>
    simp only [Bool.or_eq_true, not_or, Bool.not_eq_true] at fresh
    rw [List.map_cons, ih, List.filter_cons_of_pos (by rw [fresh.1]; rfl), List.map_cons,
      List.filter_cons_of_pos (by rw [written, fresh.2]; rfl), List.eraseDupsBy_cons,
      List.filter_filter]
    congr 3
    funext p
    by_cases same : Bytes.lower p.1 = Bytes.lower a.key <;> simp [written, sameName, same]

end RawAttribute

namespace Markup
open RawAttribute

/-- What the two readers leave of a tag: the lexer does not take the white space that ends a value. -/
def Leaves (left rest : Bytes) : Prop := rest = left ∨ ∃ b, isTagSpace b = true ∧ rest = b :: left

theorem TagRest.leaves {left rest : Bytes} {attributes : List (Bytes × Bytes)}
    (h : TagRest left attributes) (same : Leaves left rest) : TagRest rest attributes := by
  rcases same with rfl | ⟨b, space, rfl⟩
  · exact h
  · exact h.cons_space space

theorem ofByte?_ne_none {c : UInt8} : Quote.ofByte? c ≠ none ↔ c = quote ∨ c = apostrophe := by
  rw [Quote.ofByte?]
  split_ifs with double single <;> simp [*]

/-- A value that the tag goes on behind is the one that the lexer reads. -/
theorem read_agrees {s more value left : Bytes}
    (written : writtenValue? (s ++ [gt] ++ more) = some (value, left ++ more)) :
    (RawValue.read (s ++ [gt])).1.text = value ∧ Leaves left (RawValue.read (s ++ [gt])).2 ∧
      ¬OpenQuote (s ++ [gt]) := by
  have stops := dropWhile_append_gt (p := inUnquoted) (by decide) s more
  have taken := takeWhile_append_gt (p := inUnquoted) (by decide) s more
  have reaches := dropWhile_gt_ne_nil (p := inUnquoted) (by decide) s
  obtain ⟨c, cs, first⟩ : ∃ c cs, s ++ [gt] = c :: cs := List.exists_cons_of_ne_nil (by simp)
  rw [first] at written stops taken reaches ⊢
  rw [List.cons_append, writtenValue?] at written
  -- white space that ends a bare value is taken with it by one reader and left by the other
  by_cases quoted : c = quote ∨ c = apostrophe
  · have inside : c ≠ gt := by rcases quoted with rfl | rfl <;> decide
    obtain ⟨mark, opens⟩ := Option.ne_none_iff_exists'.mp (ofByte?_ne_none.mpr quoted)
    rw [if_neg inside, if_pos quoted] at written
    obtain ⟨split, closes⟩ := cut?_spec (List.cons_ne_nil _ _) written
    rw [← List.append_assoc, List.append_cancel_right_eq] at split
    have closed : cut? [c] cs = some (value, left) := by rw [split, closes]
    simp only [RawValue.read, opens, closed]
    refine ⟨trivial, .inl rfl, ?_⟩
    rintro ⟨c, cs, ⟨⟩, -, unclosed⟩
    rw [closed] at unclosed
    cases unclosed
  · have bare : Quote.ofByte? c = none := by
      by_contra opens
      exact quoted (ofByte?_ne_none.mp opens)
    simp only [RawValue.read, bare]
    have shut : ¬OpenQuote (c :: cs) := by
      rintro ⟨c, cs, ⟨⟩, opens, -⟩
      exact opens bare
    by_cases closed : c = gt
    · rw [if_pos closed, Option.some.injEq, Prod.mk.injEq, ← List.cons_append,
        List.append_cancel_right_eq] at written
      refine ⟨?_, .inl ?_, shut⟩
      · rw [closed, List.takeWhile_cons_of_neg (by decide), written.1]
      · rw [closed, List.dropWhile_cons_of_neg (by decide), ← closed, written.2]
    · rw [if_neg closed, if_neg quoted, ← List.cons_append, stops] at written
      obtain ⟨d, ds, behind⟩ := List.exists_cons_of_ne_nil reaches
      have stop : inUnquoted d = false := dropWhile_stops (by rw [behind]; rfl)
      rw [behind, taken] at written
      rw [behind]
      simp only [List.cons_append, Option.some.injEq, Prod.mk.injEq] at written
      refine ⟨written.1, ?_, shut⟩
      split_ifs at written with ended
      · exact .inl (List.append_cancel_right (show d :: ds ++ more = left ++ more from written.2))
      · have space : ∀ d, inUnquoted d = false → d ≠ gt → isTagSpace d = true :=
          forall_byte (by decide +kernel)
        exact .inr ⟨d, space d stop ended, congrArg _ (List.append_cancel_right written.2)⟩

/-- What follows a key is read alike, if the tag goes on behind it. -/
theorem readValue_agrees {s more value left : Bytes}
    (valued : valueSpan? (s ++ [gt] ++ more) = some (value, left ++ more)) :
    (readValue (s ++ [gt])).1.elim [] RawValue.text = value ∧ Leaves left (readValue (s ++ [gt])).2 ∧
      ∀ text, written? (s ++ [gt]) = some text → ¬OpenQuote text := by
  obtain ⟨c, cs, u, first, ends⟩ := skipSpace_gt s
  rw [valueSpan?, skipSpace_append_gt, first] at valued
  simp only [readValue, written?, first]
  simp only [List.cons_append] at valued
  by_cases ended : c = slash
  · have other : slash ≠ equals := by decide
    rw [if_pos ended, Option.some.injEq, Prod.mk.injEq, List.append_cancel_right_eq] at valued
    simp only [ended, other, if_true, if_false]
    exact ⟨valued.1, .inl valued.2, by simp⟩
  by_cases equal : c = equals
  · rw [if_neg ended, if_pos equal] at valued
    rw [if_neg ended, if_pos equal, if_pos equal]
    obtain ⟨v, rfl⟩ := exists_of_cons_gt ends (by rw [equal]; decide)
    obtain ⟨e, es, w, skipped, last⟩ := skipSpace_gt v
    rw [skipSpace_append_gt, skipped, last] at valued
    obtain ⟨text, rest, closed⟩ := read_agrees valued
    rw [skipped, last]
    refine ⟨text, rest, ?_⟩
    rintro text ⟨⟩
    exact closed
  · rw [if_neg ended, if_neg equal, Option.some.injEq, Prod.mk.injEq, ← List.cons_append,
      List.append_cancel_right_eq] at valued
    rw [if_neg ended, if_neg equal, if_neg equal]
    exact ⟨valued.1, .inl valued.2, by simp⟩

/-- What is left of a tag: its `>`, or an attribute that both readers take, and the rest. -/
theorem TagRest.next {s : Bytes} {attributes : List (Bytes × Bytes)} (h : TagRest s attributes) :
    (skipSpace s = [gt] ∧ attributes = []) ∨ ∃ c cs later, skipSpace s = c :: cs ∧ c ≠ gt ∧
      ¬LeftOpen (c :: cs) ∧ TagRest (readValue (afterKey (c :: cs))).2 later ∧
      attributes = if (keyOf (c :: cs)).isEmpty then later
        else (keyOf (c :: cs), (readValue (afterKey (c :: cs))).1.elim [] RawValue.text) :: later := by
  obtain ⟨t, rfl⟩ := h.tagTail.ends
  obtain ⟨afterSlash, solidus, more, span⟩ := h
  obtain ⟨last, none⟩ |
    ⟨c, cs, v, value, rest, slashed, tail, first, other, behind, valued, span, whole⟩ :=
    tagEndSpan?_step span
  · exact .inl ⟨last, none⟩
  obtain ⟨left, rfl, -⟩ := tagEndSpan?_left span
  obtain ⟨text, leaves, shut⟩ := readValue_agrees valued
  have later : TagRest left tail.attributes := ⟨_, tail.solidus, more, span⟩
  refine .inr ⟨c, cs, tail.attributes, first, other, ?_, ?_, ?_⟩
  · rintro ⟨value, written, opens⟩
    rw [behind] at written
    exact shut value written opens
  · rw [behind]
    exact later.leaves leaves
  · rw [behind, text]
    have attrs := congrArg TagEnd.attributes whole
    rw [TagEnd.cons] at attrs
    split at attrs <;> rename_i empty
    · rw [if_pos empty]
      exact attrs
    · rw [if_neg empty]
      exact attrs

/-- From behind the name of a tag the lexer goes to the `>` and takes what the reader of the tag did. -/
theorem TagRest.rounds {s : Bytes} {attributes : List (Bytes × Bytes)} (h : TagRest s attributes)
    (size : Nat) :
    Rounds size (¬LeftOpen ·) s (readAll size s) [gt] ∧
      ((readAll size s).filter fun a => !a.key.isEmpty).map written = attributes := by
  fun_induction readAll size s generalizing attributes with
  | case1 s none => rcases h.next with ⟨last, -⟩ | ⟨c, cs, -, first, -⟩ <;> simp_all
  | case2 s cs closed =>
    rcases h.next with ⟨last, rfl⟩ | ⟨c, cs, -, first, more, -⟩
    · exact ⟨last ▸ .stop (.inr (by rw [last]; rfl)), rfl⟩
    · simp_all
  | case3 s c cs first more shorter fits ih =>
    rcases h.next with ⟨last, -⟩ | ⟨d, ds, later, same, -, closed, rest, rfl⟩
    · simp_all
    · obtain ⟨rfl, rfl⟩ := List.cons.inj (first.symm.trans same)
      obtain ⟨rounds, kept⟩ := ih rest
      refine ⟨.round first more closed rounds, ?_⟩
      rw [List.filter_cons, ← kept]
      split_ifs <;> simp_all [written]

theorem exists_firstToken {inside : Option RawElement} {s : Bytes} {t : Token}
    (h : t ∈ tokensFrom inside s) : ∃ inside s, (firstToken inside s).1 = t := by
  fun_induction tokensFrom inside s with
  | case1 => cases h
  | case2 inside s nonempty shorter ih =>
    rcases List.mem_cons.mp h with rfl | later
    · exact ⟨inside, s, rfl⟩
    · exact ih later

/-- A start tag is a `<`, its name, and an end that holds its attributes. -/
theorem exists_tagRest {s raw : Bytes} {parts : TagParts} (h : .startTag raw parts ∈ tokens s) :
    ∃ rest, raw = lt :: (parts.name ++ rest) ∧ (raw.drop 1).takeWhile (!endsName ·) = parts.name ∧
      (raw.drop 1).dropWhile (!endsName ·) = rest ∧ TagRest rest parts.attributes := by
  obtain ⟨inside, s, token⟩ := exists_firstToken h
  obtain ⟨c, body, rest, rfl, letter, found, first⟩ := firstToken_startTag token
  rw [first] at token
  obtain ⟨middle, consumed, whole⟩ := tag_raw [lt] letter found
  obtain rfl : lt :: (c :: middle ++ [gt]) = raw :=
    consumed.symm.trans (Token.startTag.inj token).1
  have split : c :: body = c :: middle ++ [gt] ++ rest := by simpa using whole.symm
  obtain ⟨⟨tail, rest'⟩, span, same⟩ := Option.map_eq_some_iff.mp found
  rw [Prod.mk.injEq] at same
  obtain ⟨rfl, rfl⟩ := same
  dsimp only at split ⊢
  rw [split, dropWhile_append_gt (by decide)] at span
  rw [split, takeWhile_append_gt (by decide)]
  exact ⟨_, congrArg _ List.takeWhile_append_dropWhile.symm, rfl, rfl, false, tail.solidus, _, span⟩

end Markup

section Agreement
open RawAttribute

/-- The lexer of attributes agrees with the reader of the markup, and returns on every text. -/
theorem lexer_agrees_with_tokens :
    (∀ (s raw : Bytes) (parts : TagParts), .startTag raw parts ∈ tokens s →
      ∃ rest, raw = lt :: (parts.name ++ rest) ∧
        (raw.drop 1).takeWhile (!endsName ·) = parts.name ∧
        (raw.drop 1).dropWhile (!endsName ·) = rest ∧
        (∃ as, Rounds raw.length (¬LeftOpen ·) rest as [gt] ∧ ofTag raw rest = distinct [] as) ∧
        (ofTag raw rest).map written = parts.attributes.eraseDupsBy sameName ∧
        ∀ a ∈ ofTag raw rest, a.key <+: raw.drop a.offset ∧
          (a.value.isSome = true ↔
            (skipSpace (raw.drop (a.offset + a.key.length))).head? = some equals)) ∧
    ∀ (size : Nat) (s : Bytes), ∃ as rest, Rounds size (fun _ => True) s as rest ∧
      as.length ≤ s.length ∧ readAll size s = as := by
  refine ⟨fun s raw parts mem => ?_, fun size s => ?_⟩
  · obtain ⟨rest, whole, name, behind, tag⟩ := exists_tagRest mem
    obtain ⟨rounds, kept⟩ := tag.rounds raw.length
    have ends : rest <:+ raw := ⟨lt :: parts.name, by rw [whole]; rfl⟩
    refine ⟨rest, whole, name, behind, ⟨_, rounds, rfl⟩, ?_, fun a mem => ?_⟩
    · rw [ofTag, map_distinct, kept]
      simp
    · exact rounds.placed ends rfl a (mem_of_mem_distinct mem)
  · obtain ⟨rest, rounds, bound⟩ := exists_rounds size s
    exact ⟨_, rest, rounds, bound, rfl⟩

/-- An equals sign in a key and one in a value, a `>` in quotes, a key in two cases, and slashes. -/
def oddTag : Bytes := utf8 "<p/ =x=\"1>\" B = c=d b='' e/>"

theorem lexer_agrees_on_odd_tag :
    ∃ parts rest, .startTag oddTag parts ∈ tokens oddTag ∧ oddTag = lt :: (parts.name ++ rest) ∧
      (ofTag oddTag rest).map written =
        [(utf8 "=x", utf8 "1>"), (utf8 "B", utf8 "c=d"), (utf8 "e", [])] := by
  have mem : .startTag oddTag ⟨⟨[(utf8 "=x", utf8 "1>"), (utf8 "B", utf8 "c=d"), (utf8 "b", []),
      (utf8 "e", [])], true⟩, utf8 "p"⟩ ∈ tokens oddTag := by decide +kernel
  obtain ⟨rest, whole, -, -, -, lexed, -⟩ := lexer_agrees_with_tokens.1 _ _ _ mem
  refine ⟨_, rest, mem, whole, lexed.trans ?_⟩
  decide

end Agreement

end DomTemplate
