import DomTemplate.Proofs.Cutting

/-! The grammar of code between braces. A block is an opening brace, items and a closing brace;
an item is a block, a string between quotes or a single byte of another kind. The scan that
counts braces and passes over strings ends exactly where a block does: it passes over whole
items at every depth, and what it has passed over when it stops makes up the items that the
open braces were waiting for. -/

namespace DomTemplate
open Ascii

/-- A string from behind its opening quote up to its closing one. A backslash takes the next
byte with it. -/
inductive StringTail (mark : UInt8) : Bytes → Prop where
  | close : StringTail mark [mark]
  | escape {c : UInt8} {s : Bytes} (after : StringTail mark s) :
      StringTail mark (backslash :: c :: s)
  | byte {c : UInt8} {s : Bytes} (plain : c ≠ backslash ∧ c ≠ mark) (after : StringTail mark s) :
      StringTail mark (c :: s)

inductive CodeSymbol where
  | block
  | item
  | items

/-- The texts that derive from the symbols of the grammar. -/
inductive Derives : CodeSymbol → Bytes → Prop where
  | block {s : Bytes} (inside : Derives .items s) : Derives .block (lbrace :: (s ++ [rbrace]))
  | nested {s : Bytes} (h : Derives .block s) : Derives .item s
  | string {mark : UInt8} {s : Bytes} (quote : isCodeQuote mark = true) (tail : StringTail mark s) :
      Derives .item (mark :: s)
  | byte {c : UInt8} (plain : c ≠ lbrace ∧ c ≠ rbrace ∧ isCodeQuote c = false) : Derives .item [c]
  | none : Derives .items []
  | more {s t : Bytes} (first : Derives .item s) (rest : Derives .items t) :
      Derives .items (s ++ t)

section
variable {state : CodeState} {depth : Nat} {s text rest : Bytes} {c : UInt8}

/-- One byte of the scan, where no block ends. -/
theorem braceSpan?_cons (goesOn : ¬(state = .code ∧ c = rbrace ∧ depth = 0)) :
    braceSpan? state depth (c :: s) =
      (braceSpan? (state.next c) (state.depthAfter c depth) s).map
        fun span => (c :: span.1, span.2) := by
  rw [braceSpan?, if_neg goesOn]

theorem braceSpan?_stringTail {mark : UInt8} (h : StringTail mark s) (quote : isCodeQuote mark = true) :
    braceSpan? (.quoted mark) depth (s ++ rest) =
      (braceSpan? .code depth rest).map fun span => (s ++ span.1, span.2) := by
  have unescaped : mark ≠ backslash := by
    rintro rfl
    exact absurd quote (by decide)
  induction h with
  | close =>
    rw [List.singleton_append, braceSpan?_cons (by simp), CodeState.next, if_neg unescaped, if_pos rfl]
    rfl
  | escape after ih =>
    rw [List.cons_append, List.cons_append, braceSpan?_cons (by simp), CodeState.next, if_pos rfl,
      braceSpan?_cons (by simp)]
    simp only [CodeState.next, CodeState.depthAfter, ih, Option.map_map]
    rfl
  | byte plain after ih =>
    rw [List.cons_append, braceSpan?_cons (by simp), CodeState.next, if_neg plain.1, if_neg plain.2]
    simp only [CodeState.depthAfter, ih, Option.map_map]
    rfl

/-- The scan passes over whatever derives from the grammar, however many braces are open. -/
theorem Derives.braceSpan?_append {symbol : CodeSymbol} (h : Derives symbol s) (depth : Nat)
    (rest : Bytes) :
    braceSpan? .code depth (s ++ rest) =
      (braceSpan? .code depth rest).map fun span => (s ++ span.1, span.2) := by
  induction h generalizing depth rest with
  | @block s inside ih =>
    rw [List.cons_append, List.append_assoc, braceSpan?_cons fun ends => absurd ends.2.1 (by decide)]
    change (braceSpan? .code (depth + 1) _).map _ = _
    rw [ih, List.singleton_append, braceSpan?_cons fun ends => Nat.succ_ne_zero depth ends.2.2]
    change (((braceSpan? .code depth rest).map _).map _).map _ = _
    simp only [Option.map_map]
    congr 1
    funext span
    simp
  | nested _ ih => exact ih depth rest
  | @string mark s quote tail =>
    have brace : mark ≠ lbrace ∧ mark ≠ rbrace := by
      constructor <;> rintro rfl <;> exact absurd quote (by decide)
    rw [List.cons_append, braceSpan?_cons fun ends => brace.2 ends.2.1, CodeState.next, if_pos quote,
      CodeState.depthAfter, if_neg brace.1, if_neg brace.2, braceSpan?_stringTail tail quote,
      Option.map_map]
    rfl
  | byte plain =>
    rw [List.singleton_append, braceSpan?_cons fun ends => plain.2.1 ends.2.1, CodeState.next,
      plain.2.2, if_neg Bool.false_ne_true, CodeState.depthAfter, if_neg plain.1, if_neg plain.2.1]
    rfl
  | none => simp
  | more _ _ ihs iht =>
    rw [List.append_assoc, ihs, iht, Option.map_map]
    simp [Function.comp_def]

/-- What `depth + 1` open braces wait for, the last closing brace aside: items for each. -/
def Awaited : (depth : Nat) → Bytes → Prop
  | 0, s => Derives .items s
  | depth + 1, s => ∃ a b, s = a ++ rbrace :: b ∧ Derives .items a ∧ Awaited depth b

theorem Awaited.item {t : Bytes} (first : Derives .item s) (h : Awaited depth t) :
    Awaited depth (s ++ t) := by
  cases depth with
  | zero => exact .more first h
  | succ depth =>
    obtain ⟨a, b, rfl, items, later⟩ := h
    exact ⟨s ++ a, b, (List.append_assoc ..).symm, .more first items, later⟩

/-- What the scan still has to pass over in the given state. -/
def CodeState.Awaits (depth : Nat) : CodeState → Bytes → Prop
  | code, s => Awaited depth s
  | quoted mark, s => ∃ a b, s = a ++ b ∧ StringTail mark a ∧ Awaited depth b
  | escaped mark, s => ∃ c a b, s = c :: (a ++ b) ∧ StringTail mark a ∧ Awaited depth b

/-- A byte that does not end the block brings the scan one step closer to what it awaits. -/
theorem CodeState.awaits_cons (goesOn : ¬(state = .code ∧ c = rbrace ∧ depth = 0))
    (h : (state.next c).Awaits (state.depthAfter c depth) text) : state.Awaits depth (c :: text) := by
  cases state with
  | code =>
    rcases eq_or_ne c lbrace with rfl | opens
    · obtain ⟨a, b, rfl, items, later⟩ : Awaited (depth + 1) text := h
      have item : Derives .item (lbrace :: (a ++ [rbrace])) := .nested (.block items)
      have whole := later.item item
      rwa [List.cons_append, List.append_assoc] at whole
    rcases eq_or_ne c rbrace with rfl | closes
    · obtain ⟨depth, rfl⟩ := Nat.exists_eq_succ_of_ne_zero fun zero => goesOn ⟨rfl, rfl, zero⟩
      exact ⟨[], text, rfl, .none, h⟩
    rw [next, depthAfter, if_neg opens, if_neg closes] at h
    cases quote : isCodeQuote c with
    | true =>
      rw [quote, if_pos rfl] at h
      obtain ⟨a, b, rfl, tail, later⟩ := h
      exact later.item (.string quote tail)
    | false =>
      rw [quote, if_neg Bool.false_ne_true] at h
      exact Awaited.item (.byte ⟨opens, closes, quote⟩) h
  | quoted mark =>
    rw [next] at h
    split_ifs at h with escapes ends
    · obtain ⟨d, a, b, rfl, tail, later⟩ := h
      exact ⟨c :: d :: a, b, rfl, escapes ▸ .escape tail, later⟩
    · exact ⟨[c], text, rfl, ends ▸ .close, h⟩
    · obtain ⟨a, b, rfl, tail, later⟩ := h
      exact ⟨c :: a, b, rfl, .byte ⟨escapes, ends⟩ tail, later⟩
  | escaped mark =>
    obtain ⟨a, b, rfl, tail, later⟩ := h
    exact ⟨c, a, b, rfl, tail, later⟩

theorem awaits_of_braceSpan? (h : braceSpan? state depth s = some (text, rest)) :
    state.Awaits depth text := by
  induction s generalizing state depth text with
  | nil => cases h
  | cons c s ih =>
    by_cases ends : state = .code ∧ c = rbrace ∧ depth = 0
    · rw [braceSpan?, if_pos ends] at h
      cases h
      rw [ends.1, ends.2.2]
      exact .none
    · rw [braceSpan?_cons ends] at h
      obtain ⟨⟨t, r⟩, found, same⟩ := Option.map_eq_some_iff.mp h
      cases same
      exact CodeState.awaits_cons ends (ih found)

theorem braceSpan?_eq_some_iff :
    braceSpan? .code 0 s = some (text, rest) ↔ s = text ++ rbrace :: rest ∧ Derives .items text := by
  constructor
  · intro h
    exact ⟨(braceSpan?_spec h).1, awaits_of_braceSpan? h⟩
  · rintro ⟨rfl, items⟩
    rw [items.braceSpan?_append, braceSpan?, if_pos ⟨rfl, rfl, rfl⟩]
    simp

/-- A text starts with at most one block, which is the one that the scan finds. -/
theorem block_starts_iff {p : Bytes} :
    (p <+: lbrace :: s ∧ Derives .block p) ↔
      ∃ text rest, braceSpan? .code 0 s = some (text, rest) ∧ p = lbrace :: (text ++ [rbrace]) := by
  simp only [braceSpan?_eq_some_iff]
  constructor
  · rintro ⟨⟨rest, split⟩, ⟨items⟩⟩
    exact ⟨_, rest, ⟨by simpa using split.symm, items⟩, rfl⟩
  · rintro ⟨text, rest, ⟨rfl, items⟩, rfl⟩
    exact ⟨⟨rest, by simp⟩, .block items⟩

end

/-- Where the block that opens at `i` is closed. -/
def closingBrace? (src : Bytes) (i : Nat) : Option Nat :=
  (braceSpan? .code 0 (src.drop (i + 1))).map fun span => i + 1 + span.1.length

section
variable (before s : Bytes)

theorem drop_behind_brace : (before ++ lbrace :: s).drop (before.length + 1) = s := by simp

theorem closingBrace?_eq_some_iff (e : Nat) :
    closingBrace? (before ++ lbrace :: s) before.length = some e ↔
      e < (before ++ lbrace :: s).length ∧
        Derives .block ((before ++ lbrace :: s).extract before.length (e + 1)) := by
  rw [closingBrace?, drop_behind_brace, List.extract_eq_take_drop, List.drop_left,
    Option.map_eq_some_iff]
  constructor
  · rintro ⟨⟨text, rest⟩, found, rfl⟩
    obtain ⟨rfl, items⟩ := braceSpan?_eq_some_iff.mp found
    have size : before.length + 1 + text.length + 1 - before.length = text.length + 1 + 1 := by
      omega
    refine ⟨by simp; omega, ?_⟩
    rw [size, List.take_succ_cons, List.take_length_add_append]
    exact .block items
  · rintro ⟨inside, block⟩
    obtain ⟨text, rest, found, same⟩ := block_starts_iff.mp ⟨List.take_prefix _ _, block⟩
    refine ⟨(text, rest), found, ?_⟩
    have size := congrArg List.length same
    simp only [List.length_take, List.length_append, List.length_cons, List.length_nil] at size inside
    change before.length + 1 + text.length = e
    omega

theorem closingBrace?_eq_none_iff :
    closingBrace? (before ++ lbrace :: s) before.length = none ↔
      ∀ p, p <+: lbrace :: s → ¬Derives .block p := by
  rw [closingBrace?, Option.map_eq_none_iff, drop_behind_brace]
  constructor
  · intro fails p starts block
    obtain ⟨text, rest, found, -⟩ := block_starts_iff.mp ⟨starts, block⟩
    rw [fails] at found
    cases found
  · intro absent
    by_contra found
    obtain ⟨⟨text, rest⟩, found⟩ := Option.ne_none_iff_exists'.mp found
    obtain ⟨starts, block⟩ := block_starts_iff.mpr ⟨text, rest, found, rfl⟩
    exact absent _ starts block

end

/-- The scan from an opening brace ends at `e` exactly if the text from the one to the other
derives from the grammar. No other place ends a block there, the scan fails exactly if none
does, and it cuts the text at the place that it finds. -/
theorem closingBrace?_recognises (src : Bytes) (i : Nat) (opens : src[i]? = some lbrace) :
    (∀ e, closingBrace? src i = some e ↔
      e < src.length ∧ Derives .block (src.extract i (e + 1))) ∧
    (∀ e e', e < src.length → e' < src.length → Derives .block (src.extract i (e + 1)) →
      Derives .block (src.extract i (e' + 1)) → e = e') ∧
    (closingBrace? src i = none ↔ ∀ p, p <+: src.drop i → ¬Derives .block p) ∧
    ∀ text rest, braceSpan? .code 0 (src.drop (i + 1)) = some (text, rest) →
      ∃ e, closingBrace? src i = some e ∧ text = src.extract (i + 1) e ∧ rest = src.drop (e + 1) := by
  obtain ⟨before, s, rfl, rfl⟩ : ∃ before s, src = before ++ lbrace :: s ∧ before.length = i := by
    obtain ⟨bound, here⟩ := List.getElem?_eq_some_iff.mp opens
    refine ⟨src.take i, src.drop (i + 1), ?_, List.length_take_of_le bound.le⟩
    rw [← here, ← List.drop_eq_getElem_cons, List.take_append_drop]
  have ends := closingBrace?_eq_some_iff before s
  refine ⟨ends, ?_, by rw [List.drop_left, closingBrace?_eq_none_iff], ?_⟩
  · intro e e' inside inside' block block'
    have found := (ends e).mpr ⟨inside, block⟩
    rw [(ends e').mpr ⟨inside', block'⟩] at found
    exact (Option.some.inj found).symm
  · intro text rest found
    rw [drop_behind_brace] at found
    refine ⟨before.length + 1 + text.length, by rw [closingBrace?, drop_behind_brace, found]; rfl, ?_⟩
    obtain ⟨rfl, -⟩ := braceSpan?_spec found
    rw [List.extract_eq_take_drop, drop_behind_brace, Nat.add_assoc _ _ 1, ← List.drop_drop,
      drop_behind_brace]
    simp

/-- A nested block and strings that hold braces and an escaped quote do not end a block early,
and a string that nothing closes leaves it open. -/
theorem closingBrace?_recognises_strings :
    let src := utf8 "<p>\x7bf \x7b '\\'\x7d' + `\x7b\"` \x7d\x7d\x7d"
    let unclosed := utf8 "\x7b\"\x7d"
    src[3]? = some lbrace ∧ closingBrace? src 3 = some 22 ∧ Derives .block (src.extract 3 23) ∧
      unclosed[0]? = some lbrace ∧ ∀ p, p <+: unclosed.drop 0 → ¬Derives .block p := by
  intro src unclosed
  have opens : src[3]? = some lbrace := by decide +kernel
  have closes : closingBrace? src 3 = some 22 := by decide +kernel
  have opens' : unclosed[0]? = some lbrace := by decide +kernel
  exact ⟨opens, closes, (((closingBrace?_recognises src 3 opens).1 22).mp closes).2, opens',
    (closingBrace?_recognises unclosed 0 opens').2.2.1.mp (by decide +kernel)⟩

end DomTemplate
