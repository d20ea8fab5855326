import DomTemplate.Proofs.Printing
import DomTemplate.Proofs.Tokens

/-! Tags in print, read back. The two readers of a tag, one for its end and one for its
attributes, take a printed attribute in one step and go on with what follows it, so that each
printed list of attributes is read by induction. -/

namespace DomTemplate
open Ascii Bytes Markup

/-- An attribute in the masked text of a print: its key, and its value between quotes. -/
structure PrintedAttribute where
  key : Bytes
  value : Option Bytes

namespace PrintedAttribute

def text (a : PrintedAttribute) : Bytes :=
  space :: a.key ++
    match a.value with
    | none => []
    | some v => equals :: quote :: v ++ [quote]

structure IsReadable (a : PrintedAttribute) : Prop where
  key : isPlainName a.key = true
  value : ∀ v, a.value = some v → quote ∉ v

end PrintedAttribute

/-- The end of a tag that has the given attributes. -/
def printedEnd (as : List PrintedAttribute) (solidus : Bool) : Bytes :=
  as.flatMap PrintedAttribute.text ++ if solidus then [slash, gt] else [gt]

/-- What may follow an attribute: another one, or the end of the tag. -/
inductive Follows : Bytes → Prop where
  | key {c : UInt8} (s : Bytes) (letter : isLower c = true) : Follows (space :: c :: s)
  | solidus (s : Bytes) : Follows (slash :: gt :: s)
  | close (s : Bytes) : Follows (gt :: s)

theorem follows_printedEnd {as : List PrintedAttribute} (readable : ∀ a ∈ as, a.IsReadable)
    (solidus : Bool) (rest : Bytes) : Follows (printedEnd as solidus ++ rest) := by
  cases as with
  | nil =>
    cases solidus
    · exact .close rest
    · exact .solidus rest
  | cons a as =>
    obtain ⟨c, cs, key, letter⟩ := exists_of_isPlainName (readable a List.mem_cons_self).key
    simp only [printedEnd, List.flatMap_cons, PrintedAttribute.text, key, List.cons_append]
    exact .key _ letter

theorem isLower_spec (c : UInt8) : isLower c = true →
    isTagSpace c = false ∧ c ≠ gt ∧ c ≠ slash ∧ c ≠ equals ∧ isLetter c = true := by
  revert c
  exact forall_byte (by decide +kernel)

theorem skipSpace_key {c : UInt8} (letter : isLower c = true) (s : Bytes) :
    skipSpace (c :: s) = c :: s :=
  List.dropWhile_cons_of_neg (by simp [(isLower_spec c letter).1])

theorem skipSpace_gap {c : UInt8} (letter : isLower c = true) (s : Bytes) :
    skipSpace (space :: c :: s) = c :: s := skipSpace_key letter s

theorem tagEndSpan?_eq (afterSlash : Bool) (s : Bytes) :
    tagEndSpan? afterSlash s =
      match skipSpace s with
      | [] => none
      | c :: cs =>
        if c = gt then some (⟨[], afterSlash && s.head? == some gt⟩, cs)
        else match attributeSpan? (c :: cs) with
          | none => none
          | some (attr, rest) =>
            (tagEndSpan? (endsInSlash (c :: cs)) rest).map fun (tail, rest) =>
              (tail.cons attr, rest) := by
  rw [tagEndSpan?]
  split <;> rename_i found <;> simp only [found]
  split
  · rfl
  · split <;> rename_i span <;> simp only [span]

theorem RawAttribute.readAll_eq (size : Nat) (s : Bytes) :
    RawAttribute.readAll size s =
      match skipSpace s with
      | [] => []
      | c :: cs =>
        if c = gt then []
        else
          { key := keyOf (c :: cs)
            value := (RawAttribute.readValue (afterKey (c :: cs))).1
            offset := size - (c :: cs).length } ::
          RawAttribute.readAll size (RawAttribute.readValue (afterKey (c :: cs))).2 := by
  rw [RawAttribute.readAll]
  split <;> rename_i found <;> simp only [found]
  split <;> rfl

/-- What is left after a key without a value. -/
def afterBare (s : Bytes) : Bytes :=
  match skipSpace s with
  | [] => []
  | c :: cs => if c = slash then cs else c :: cs

section Keys
variable {key s : Bytes}

theorem Follows.stops (h : Follows s) : ∃ b t, s = b :: t ∧ inKey b = false := by
  cases h <;> exact ⟨_, _, rfl, rfl⟩

theorem afterKey_printed (plain : isPlainName key = true)
    (stops : ∃ b t, s = b :: t ∧ inKey b = false) : afterKey (key ++ s) = s := by
  obtain ⟨b, t, rfl, stop⟩ := stops
  have inside : ∀ c ∈ key, inKey c = true := fun c mem =>
    (isNameByte_spec c (isNameByte_of_isPlainName plain c mem)).2.2.2.1
  obtain ⟨c, cs, rfl, letter⟩ := exists_of_isPlainName plain
  rw [List.cons_append, afterKey, if_neg (isLower_spec c letter).2.2.2.1, ← List.cons_append]
  exact dropWhile_append_stop inside stop

theorem keyOf_printed (plain : isPlainName key = true)
    (stops : ∃ b t, s = b :: t ∧ inKey b = false) : keyOf (key ++ s) = key := by
  have whole := keyOf_append (key ++ s)
  rw [afterKey_printed plain stops] at whole
  exact List.append_cancel_right whole

theorem Follows.valueSpan? (h : Follows s) : Markup.valueSpan? s = some ([], afterBare s) := by
  cases h with
  | @key c s letter =>
    obtain ⟨-, -, noSlash, noEquals, -⟩ := isLower_spec c letter
    have skip := skipSpace_gap letter s
    simp only [Markup.valueSpan?, afterBare, skip, noSlash, noEquals, if_false]
  | solidus s => rfl
  | close s => rfl

theorem Follows.readValue (h : Follows s) : RawAttribute.readValue s = (none, afterBare s) := by
  cases h with
  | @key c s letter =>
    obtain ⟨-, -, noSlash, noEquals, -⟩ := isLower_spec c letter
    have skip := skipSpace_gap letter s
    simp only [RawAttribute.readValue, afterBare, skip, noSlash, noEquals, if_false]
  | solidus s => rfl
  | close s => rfl

theorem keyOf_solidus (s : Bytes) : keyOf (slash :: gt :: s) = [] := by
  have after : afterKey (slash :: gt :: s) = slash :: gt :: s := rfl
  rw [keyOf, after, Nat.sub_self, List.take_zero]

/-- The end of a tag is the same before and after the solidus that ends a bare key. -/
theorem tagEndSpan?_bare (h : Follows s) :
    tagEndSpan? ((skipSpace s).head? == some slash) (afterBare s) = tagEndSpan? false s := by
  cases h with
  | @key c s letter =>
    have skip := skipSpace_gap letter s
    have other : (some c == some slash) = false := by simp [(isLower_spec c letter).2.2.1]
    simp only [afterBare, skip, (isLower_spec c letter).2.2.1, if_false, List.head?_cons, other]
    rw [tagEndSpan?_eq false (c :: s), tagEndSpan?_eq false (space :: c :: s), skip,
      skipSpace_key letter s]
    simp only [Bool.false_and]
  | solidus s =>
    -- taken for an attribute, the solidus has no name, and the tag ends at the same `>`
    change tagEndSpan? true (gt :: s) = _
    have close : tagEndSpan? true (gt :: s) = some (⟨[], true⟩, s) := by
      rw [tagEndSpan?_eq]
      rfl
    have skip : skipSpace (slash :: gt :: s) = slash :: gt :: s := rfl
    have span : attributeSpan? (slash :: gt :: s) = some (([], []), gt :: s) := by
      rw [attributeSpan?, keyOf_solidus]
      rfl
    rw [close, tagEndSpan?_eq, skip]
    simp only [(by decide : slash ≠ gt), if_false, span]
    change _ = (tagEndSpan? true (gt :: s)).map _
    rw [close]
    rfl
  | close s => rfl

theorem distinct_readAll_bare (h : Follows s) (seen : List Bytes) (size : Nat) :
    RawAttribute.distinct seen (RawAttribute.readAll size (afterBare s)) =
      RawAttribute.distinct seen (RawAttribute.readAll size s) := by
  cases h with
  | @key c s letter =>
    have skip := skipSpace_gap letter s
    simp only [afterBare, skip, (isLower_spec c letter).2.2.1, if_false]
    rw [RawAttribute.readAll_eq size (c :: s), RawAttribute.readAll_eq size (space :: c :: s), skip,
      skipSpace_key letter s]
  | solidus s =>
    change RawAttribute.distinct seen (RawAttribute.readAll size (gt :: s)) = _
    have close : RawAttribute.readAll size (gt :: s) = [] := by
      rw [RawAttribute.readAll_eq]
      rfl
    have skip : skipSpace (slash :: gt :: s) = slash :: gt :: s := rfl
    rw [close, RawAttribute.readAll_eq, skip]
    simp only [(by decide : slash ≠ gt), if_false, keyOf_solidus]
    change _ = RawAttribute.distinct seen (RawAttribute.readAll size (gt :: s))
    rw [close]
  | close s => rfl

end Keys

namespace PrintedAttribute
variable {a : PrintedAttribute} {s : Bytes}

/-- What follows the key, before the rest `s` of the tag. -/
def afterKey (a : PrintedAttribute) (s : Bytes) : Bytes :=
  match a.value with
  | none => s
  | some v => equals :: quote :: (v ++ quote :: s)

/-- What is left of `afterKey` once the value is read. -/
def afterValue (a : PrintedAttribute) (s : Bytes) : Bytes :=
  match a.value with
  | none => afterBare s
  | some _ => s

theorem skipSpace_text (readable : a.IsReadable) (s : Bytes) :
    skipSpace (a.text ++ s) = a.key ++ a.afterKey s := by
  obtain ⟨c, cs, key, letter⟩ := exists_of_isPlainName readable.key
  have whole : a.text ++ s = space :: (a.key ++ a.afterKey s) := by
    rw [text, afterKey]
    cases a.value <;> simp
  rw [whole, key]
  exact skipSpace_key letter _

theorem head_key (readable : a.IsReadable) (s : Bytes) : ∃ c cs, a.key ++ s = c :: cs ∧ c ≠ gt := by
  obtain ⟨c, cs, key, letter⟩ := exists_of_isPlainName readable.key
  exact ⟨c, cs ++ s, by rw [key]; rfl, (isLower_spec c letter).2.1⟩

theorem stops_afterKey (a : PrintedAttribute) (h : Follows s) :
    ∃ b t, a.afterKey s = b :: t ∧ inKey b = false := by
  rw [afterKey]
  cases a.value with
  | none => exact h.stops
  | some v => exact ⟨_, _, rfl, rfl⟩

theorem cut?_quote {v : Bytes} (unquoted : quote ∉ v) (s : Bytes) :
    Bytes.cut? [quote] (v ++ quote :: s) = some (v, s) := by
  have found := cut?_of_not_mem unquoted [] s
  rwa [List.append_assoc] at found

theorem valueSpan?_afterKey (readable : a.IsReadable) (h : Follows s) :
    valueSpan? (a.afterKey s) = some (a.value.getD [], a.afterValue s) := by
  rw [afterKey, afterValue]
  cases valued : a.value with
  | none => exact h.valueSpan?
  | some v => exact cut?_quote (readable.value v valued) s

theorem readValue_afterKey (readable : a.IsReadable) (h : Follows s) :
    RawAttribute.readValue (a.afterKey s) = (a.value.map (⟨some .double, ·⟩), a.afterValue s) := by
  rw [afterKey, afterValue]
  cases valued : a.value with
  | none => exact h.readValue
  | some v =>
    have read : RawValue.read (quote :: (v ++ quote :: s)) = (⟨some .double, v⟩, s) := by
      simp only [RawValue.read, Quote.ofByte?, if_true, cut?_quote (readable.value v valued) s]
    exact congrArg (fun r => (some r.1, r.2)) read

theorem tagEndSpan?_afterValue (a : PrintedAttribute) (h : Follows s) :
    tagEndSpan? ((skipSpace (a.afterKey s)).head? == some slash) (a.afterValue s) =
      tagEndSpan? false s := by
  rw [afterKey, afterValue]
  cases a.value with
  | none => exact tagEndSpan?_bare h
  | some v => rfl

theorem distinct_readAll_afterValue (a : PrintedAttribute) (h : Follows s) (seen : List Bytes)
    (size : Nat) :
    RawAttribute.distinct seen (RawAttribute.readAll size (a.afterValue s)) =
      RawAttribute.distinct seen (RawAttribute.readAll size s) := by
  rw [afterValue]
  cases a.value with
  | none => exact distinct_readAll_bare h seen size
  | some v => rfl

/-- The reader of a tag's end takes a printed attribute in one step. -/
theorem tagEndSpan?_text (readable : a.IsReadable) (h : Follows s) :
    tagEndSpan? false (a.text ++ s) = (tagEndSpan? false s).map fun (tail, rest) =>
      (tail.cons (a.key, a.value.getD []), rest) := by
  have stops := a.stops_afterKey h
  obtain ⟨c, cs, first, more⟩ := head_key readable (a.afterKey s)
  have span : attributeSpan? (c :: cs) = some ((a.key, a.value.getD []), a.afterValue s) := by
    rw [← first, attributeSpan?, afterKey_printed readable.key stops,
      keyOf_printed readable.key stops, valueSpan?_afterKey readable h]
    rfl
  rw [tagEndSpan?_eq, skipSpace_text readable, first]
  simp only [more, if_false, span]
  rw [← first, endsInSlash, afterKey_printed readable.key stops, tagEndSpan?_afterValue a h]

/-- The reader of a tag's attributes takes a printed attribute in one step. -/
theorem distinct_readAll_text (readable : a.IsReadable) (h : Follows s) {seen : List Bytes}
    (unseen : a.key ∉ seen) (size : Nat) :
    ∃ offset, RawAttribute.distinct seen (RawAttribute.readAll size (a.text ++ s)) =
      ⟨a.key, a.value.map (⟨some .double, ·⟩), offset⟩ ::
        RawAttribute.distinct (a.key :: seen) (RawAttribute.readAll size s) := by
  have stops := a.stops_afterKey h
  obtain ⟨c, cs, first, more⟩ := head_key readable (a.afterKey s)
  have small : Bytes.lower a.key = a.key := lower_of_isPlainName readable.key
  have named : a.key ≠ [] := by
    obtain ⟨c, cs, key, -⟩ := exists_of_isPlainName readable.key
    simp [key]
  refine ⟨size - (c :: cs).length, ?_⟩
  rw [RawAttribute.readAll_eq, skipSpace_text readable, first]
  simp only [more, if_false]
  rw [← first, afterKey_printed readable.key stops, keyOf_printed readable.key stops,
    readValue_afterKey readable h, RawAttribute.distinct, if_neg (by simp [small, unseen, named]),
    small, distinct_readAll_afterValue a h]

end PrintedAttribute

/-- The end of a printed tag is read to its end. -/
theorem tagEndSpan?_printedEnd {as : List PrintedAttribute} (readable : ∀ a ∈ as, a.IsReadable)
    (solidus : Bool) (rest : Bytes) :
    ∃ attributes, tagEndSpan? false (printedEnd as solidus ++ rest) =
      some (⟨attributes, solidus⟩, rest) := by
  induction as with
  | nil =>
    cases solidus with
    | false => exact ⟨[], by rw [tagEndSpan?_eq]; rfl⟩
    | true =>
      refine ⟨[], ?_⟩
      have bare := tagEndSpan?_bare (.solidus rest)
      change tagEndSpan? true (gt :: rest) = tagEndSpan? false (slash :: gt :: rest) at bare
      change tagEndSpan? false (slash :: gt :: rest) = _
      rw [← bare, tagEndSpan?_eq]
      rfl
  | cons a as ih =>
    rw [List.forall_mem_cons] at readable
    obtain ⟨attributes, read⟩ := ih readable.2
    have split : printedEnd (a :: as) solidus ++ rest =
        a.text ++ (printedEnd as solidus ++ rest) := by simp [printedEnd]
    have follows := follows_printedEnd readable.2 solidus rest
    rw [split, PrintedAttribute.tagEndSpan?_text readable.1 follows, read]
    simp only [Option.map_some, TagEnd.cons]
    split
    · exact ⟨_, rfl⟩
    · exact ⟨_, rfl⟩

/-- Its attributes are those that were printed. -/
theorem distinct_printedEnd {as : List PrintedAttribute} (readable : ∀ a ∈ as, a.IsReadable)
    (distinct : (as.map PrintedAttribute.key).Nodup) {seen : List Bytes}
    (unseen : ∀ a ∈ as, a.key ∉ seen) (solidus : Bool) (size : Nat) :
    (RawAttribute.distinct seen (RawAttribute.readAll size (printedEnd as solidus))).map
        (fun r => (r.key, r.value)) =
      as.map fun a => (a.key, a.value.map (⟨some .double, ·⟩)) := by
  induction as generalizing seen with
  | nil =>
    have close : RawAttribute.readAll size [gt] = [] := by
      rw [RawAttribute.readAll_eq]
      rfl
    cases solidus with
    | false => exact congrArg (fun rs => (RawAttribute.distinct seen rs).map _) close
    | true =>
      have bare := distinct_readAll_bare (.solidus []) seen size
      change RawAttribute.distinct seen (RawAttribute.readAll size [gt]) =
        RawAttribute.distinct seen (RawAttribute.readAll size [slash, gt]) at bare
      change (RawAttribute.distinct seen (RawAttribute.readAll size [slash, gt])).map _ = _
      rw [← bare, close]
      rfl
  | cons a as ih =>
    rw [List.forall_mem_cons] at readable unseen
    rw [List.map_cons, List.nodup_cons] at distinct
    have split : printedEnd (a :: as) solidus = a.text ++ printedEnd as solidus := by
      simp [printedEnd]
    have follows : Follows (printedEnd as solidus) := by
      simpa using follows_printedEnd readable.2 solidus []
    obtain ⟨offset, read⟩ := PrintedAttribute.distinct_readAll_text readable.1 follows unseen.1 size
    have later : ∀ b ∈ as, b.key ∉ a.key :: seen := by
      intro b mem again
      rcases List.mem_cons.mp again with same | again
      · exact distinct.1 (same ▸ List.mem_map_of_mem mem)
      · exact unseen.2 b mem again
    rw [split, read, List.map_cons, ih readable.2 distinct.2 later, List.map_cons]

section Tokens
variable {name s rest : Bytes} {as : List PrintedAttribute}

theorem Follows.endsName (h : Follows s) : ∃ b t, s = b :: t ∧ Markup.endsName b = true := by
  cases h <;> exact ⟨_, _, rfl, rfl⟩

/-- A name and what follows it come apart where the name ends. -/
theorem split_name (plain : isPlainName name = true) (h : Follows s) :
    (name ++ s).takeWhile (!Markup.endsName ·) = name ∧
      (name ++ s).dropWhile (!Markup.endsName ·) = s := by
  obtain ⟨b, t, rfl, ends⟩ := h.endsName
  have inside : ∀ c ∈ name, (!Markup.endsName c) = true := by
    intro c mem
    rw [(isNameByte_spec c (isNameByte_of_isPlainName plain c mem)).2.2.1]
    rfl
  have stop : (!Markup.endsName b) = false := by rw [ends]; rfl
  exact ⟨takeWhile_append_stop inside stop, dropWhile_append_stop inside stop⟩

theorem tagSpan?_printed (plain : isPlainName name = true) (readable : ∀ a ∈ as, a.IsReadable)
    (solidus : Bool) (rest : Bytes) :
    ∃ parts : TagParts, tagSpan? (name ++ (printedEnd as solidus ++ rest)) = some (parts, rest) ∧
      parts.name = name ∧ parts.solidus = solidus := by
  obtain ⟨first, after⟩ := split_name plain (follows_printedEnd readable solidus rest)
  obtain ⟨attributes, read⟩ := tagEndSpan?_printedEnd readable solidus rest
  rw [tagSpan?, first, after, read]
  exact ⟨_, rfl, rfl, rfl⟩

theorem consumed_front (s rest : Bytes) : consumed (s ++ rest) rest = s := by
  rw [consumed, List.length_append, Nat.add_sub_cancel, List.take_left']
  rfl

theorem textSpan_markup (h : markupStarts s = true) : textSpan s = ([], s) := by
  cases s with
  | nil => rfl
  | cons c cs => rw [textSpan, if_pos h]

/-- Text without a `<` belongs to the run that goes on behind it. -/
theorem textSpan_append_quiet (quiet : lt ∉ s) (rest : Bytes) :
    textSpan (s ++ rest) = (s ++ (textSpan rest).1, (textSpan rest).2) := by
  induction s with
  | nil => rfl
  | cons c s ih =>
    rw [List.mem_cons, not_or] at quiet
    have plain : ¬markupStarts (c :: (s ++ rest)) = true := by
      cases s ++ rest with
      | nil => simp [markupStarts]
      | cons b t => simp [markupStarts, Ne.symm quiet.1]
    rw [List.cons_append, textSpan, if_neg plain, ih quiet.2, List.cons_append]

theorem textSpan_text (quiet : lt ∉ s) (h : rest = [] ∨ markupStarts rest = true) :
    textSpan (s ++ rest) = (s, rest) := by
  have ends : textSpan rest = ([], rest) := by
    rcases h with rfl | starts
    · rfl
    · exact textSpan_markup starts
  rw [textSpan_append_quiet quiet, ends, List.append_nil]

theorem firstToken_text (nonempty : s ≠ []) (quiet : lt ∉ s)
    (h : rest = [] ∨ markupStarts rest = true) :
    firstToken none (s ++ rest) = (.text s (shownText s), rest) := by
  simp only [firstToken, plainToken, textSpan_text quiet h, List.isEmpty_iff, nonempty, if_false]

theorem firstToken_markup (h : markupStarts s = true) : firstToken none s = markupToken s := by
  simp only [firstToken, plainToken, textSpan_markup h, List.isEmpty_nil, if_true]

theorem firstToken_start (plain : isPlainName name = true) (readable : ∀ a ∈ as, a.IsReadable)
    (solidus : Bool) (rest : Bytes) :
    ∃ parts : TagParts, firstToken none (lt :: (name ++ printedEnd as solidus) ++ rest) =
        (.startTag (lt :: (name ++ printedEnd as solidus)) parts, rest) ∧
      parts.name = name ∧ parts.solidus = solidus := by
  obtain ⟨parts, span, sameName, sameSolidus⟩ := tagSpan?_printed plain readable solidus rest
  refine ⟨parts, ?_, sameName, sameSolidus⟩
  have whole := consumed_front (lt :: (name ++ printedEnd as solidus)) rest
  obtain ⟨c, cs, rfl, small⟩ := exists_of_isPlainName plain
  have letter := (isLower_spec c small).2.2.2.2
  simp only [List.cons_append, List.append_assoc] at span whole ⊢
  rw [firstToken_markup (by simp [markupStarts, letter]), markupToken, if_pos letter, startTagToken,
    span]
  simp only [whole]

theorem firstToken_end (plain : isPlainName name = true) (rest : Bytes) :
    firstToken none (lt :: slash :: (name ++ printedEnd [] false) ++ rest) =
      (.endTag (lt :: slash :: (name ++ printedEnd [] false)), rest) := by
  have none : ∀ a ∈ ([] : List PrintedAttribute), a.IsReadable := by simp
  obtain ⟨parts, span, -⟩ := tagSpan?_printed plain none false rest
  have whole := consumed_front (lt :: slash :: (name ++ printedEnd [] false)) rest
  obtain ⟨c, cs, rfl, small⟩ := exists_of_isPlainName plain
  obtain ⟨-, noClose, -, -, letter⟩ := isLower_spec c small
  simp only [List.cons_append, List.append_assoc] at span whole ⊢
  rw [firstToken_markup (by simp [markupStarts]), markupToken, if_neg (by decide), if_pos rfl,
    closingToken, if_neg noClose, if_pos letter, span]
  simp only [whole]

theorem tokensFrom_cons {token : Token} (nonempty : s ≠ [])
    (first : firstToken none s = (token, rest)) (ordinary : token.opens = none) :
    tokensFrom none s = token :: tokensFrom none rest := by
  rw [tokensFrom, dif_neg nonempty]
  simp only [first, ordinary]

end Tokens

end DomTemplate
