import DomTemplate.Proofs.PrintedTags
import DomTemplate.Proofs.TagLead

/-! The end of a tag, read a byte at a time, and what the search behind a code block sees of it. The
reader of a tag and the search are two machines over one text. The reader knows keys and values; the
search knows only strings behind an equals sign, in which a backslash takes the next byte with it.
They go in step as long as the strings are the quoted values, and then the search finds the end of the
tag unless a `<` stands outside the values. -/

namespace DomTemplate
open Ascii Bytes Markup

/-- Where the reader of the end of a tag stands. -/
inductive TagState where
  | between
  /-- In a key, or behind it. -/
  | key
  /-- Behind the equals sign of a key. -/
  | due
  /-- In a value without quotes. -/
  | bare
  | quoted (mark : UInt8)
  deriving DecidableEq, Repr

namespace TagState

/-- The state after `c`, if `c` does not end the tag. -/
def next (c : UInt8) : TagState → TagState
  | between => if isTagSpace c ∨ c = slash then between else key
  | key => if c = slash then between else if c = equals then due else key
  | due => if isTagSpace c then due else if c = quote ∨ c = apostrophe then quoted c else bare
  | bare => if isTagSpace c then between else bare
  | quoted mark => if c = mark then between else quoted mark

def isQuoted : TagState → Bool
  | quoted _ => true
  | _ => false

theorem exists_of_isQuoted {state : TagState} (h : state.isQuoted = true) : ∃ mark, state = quoted mark := by
  cases state with
  | quoted mark => exact ⟨mark, rfl⟩
  | between | key | due | bare => cases h

/-- What follows the `>` that ends the tag. -/
def after? (state : TagState) : Bytes → Option Bytes
  | [] => none
  | c :: cs => if c = gt ∧ state.isQuoted = false then some cs else (state.next c).after? cs

/-- The state after the text `s` behind the name of a tag. -/
def reached (s : Bytes) : TagState := s.foldl (fun state c => state.next c) between

@[simp] theorem reached_concat (s : Bytes) (c : UInt8) : reached (s ++ [c]) = (reached s).next c := by
  simp [reached]

section Reading
variable {state : TagState} {s : Bytes}

/-- Bytes that leave the state as it is can be skipped. -/
theorem after?_dropWhile {p : UInt8 → Bool}
    (stays : ∀ c, p c = true → ¬(c = gt ∧ state.isQuoted = false) ∧ state.next c = state) (s : Bytes) :
    state.after? (s.dropWhile p) = state.after? s := by
  induction s with
  | nil => rfl
  | cons c cs ih =>
    by_cases passes : p c = true
    · obtain ⟨inside, same⟩ := stays c passes
      rw [List.dropWhile_cons_of_pos passes, ih, after?, if_neg inside, same]
    · rw [List.dropWhile_cons_of_neg passes]

theorem not_gt_of_space {c : UInt8} (space : isTagSpace c = true) : c ≠ gt := by
  rintro rfl
  cases space

theorem after?_skipSpace (skips : ∀ c, isTagSpace c = true → state.next c = state) (s : Bytes) :
    state.after? (skipSpace s) = state.after? s :=
  after?_dropWhile (fun c space => ⟨fun ends => not_gt_of_space space ends.1, skips c space⟩) s

/-- A key goes on up to a byte that is none of it. -/
theorem after?_inKey (s : Bytes) : key.after? (s.dropWhile inKey) = key.after? s := by
  refine after?_dropWhile (fun c within => ?_) s
  obtain ⟨more, unslashed, unequal⟩ : c ≠ gt ∧ c ≠ slash ∧ c ≠ equals := by simp_all [inKey]
  exact ⟨fun ends => more ends.1, by rw [next, if_neg unslashed, if_neg unequal]⟩

/-- A quoted value ends at its second quote. -/
theorem after?_quoted (mark : UInt8) (s : Bytes) :
    (quoted mark).after? s = (cut? [mark] s).bind fun found => between.after? found.2 := by
  induction s with
  | nil => rfl
  | cons c cs ih =>
    rw [after?, if_neg (by simp [isQuoted]), next, cut?, dropPrefix?]
    by_cases ends : c = mark
    · rw [if_pos ends, if_pos ends.symm]
      rfl
    · rw [if_neg ends, if_neg (Ne.symm ends), ih]
      cases cut? [mark] cs <;> rfl

/-- A value without quotes ends at white space or with the tag. -/
theorem after?_bare (s : Bytes) :
    bare.after? s =
      match s.dropWhile inUnquoted with
      | [] => none
      | d :: rest => between.after? (if d = gt then d :: rest else rest) := by
  rw [← after?_dropWhile (p := inUnquoted) (fun c within => ?_) s]
  · cases left : s.dropWhile inUnquoted with
    | nil => rfl
    | cons d rest =>
      have stop : inUnquoted d = false := dropWhile_stops (by rw [left]; rfl)
      simp only [after?]
      by_cases ends : d = gt
      · simp [ends, after?, isQuoted]
      · have space : isTagSpace d = true := by simpa [inUnquoted, ends] using stop
        simp [ends, next, space]
  · obtain ⟨more, dense⟩ : c ≠ gt ∧ ¬isTagSpace c = true := by simp_all [inUnquoted]
    exact ⟨fun ends => more ends.1, by rw [next, if_neg dense]⟩

theorem after?_writtenValue? (dense : ∀ c, s.head? = some c → isTagSpace c = false) :
    due.after? s = (writtenValue? s).bind fun found => between.after? found.2 := by
  cases s with
  | nil => rfl
  | cons c cs =>
    rw [writtenValue?]
    by_cases ends : c = gt
    · simp [ends, after?, isQuoted]
    · have started : due.after? (c :: cs) = (due.next c).after? cs := by
        rw [after?, if_neg fun h => ends h.1]
      rw [if_neg ends, started, next, if_neg (by rw [dense c rfl]; decide)]
      by_cases opens : c = quote ∨ c = apostrophe
      · rw [if_pos opens, if_pos opens, after?_quoted]
      · have within : inUnquoted c = true := by simp [inUnquoted, dense c rfl, ends]
        rw [if_neg opens, if_neg opens, after?_bare, List.dropWhile_cons_of_pos within]
        cases cs.dropWhile inUnquoted <;> rfl

theorem after?_valueSpan? (s : Bytes) :
    key.after? s = (valueSpan? s).bind fun found => between.after? found.2 := by
  have spaces : ∀ c, isTagSpace c = true → key.next c = key ∧ due.next c = due := by
    intro c space
    have apart : c ≠ slash ∧ c ≠ equals := by constructor <;> rintro rfl <;> cases space
    exact ⟨by rw [next, if_neg apart.1, if_neg apart.2], if_pos space⟩
  rw [← after?_skipSpace (fun c space => (spaces c space).1), valueSpan?]
  cases left : skipSpace s with
  | nil => rfl
  | cons c cs =>
    have dense := isTagSpace_of_skipSpace left
    simp only
    by_cases ended : c = slash
    · simp [ended, after?, next, show slash ≠ gt by decide]
    by_cases equal : c = equals
    · have skips := after?_skipSpace (fun c space => (spaces c space).2) cs
      have value := after?_writtenValue? (s := skipSpace cs) fun d head => by
        obtain ⟨ds, rest⟩ := List.head?_eq_some_iff.mp head
        exact isTagSpace_of_skipSpace rest
      rw [if_neg ended, if_pos equal, ← value, skips, after?, if_neg (by rw [equal]; decide), next,
        if_neg ended, if_pos equal]
    · -- the next key starts here, or the tag ends
      rw [if_neg ended, if_neg equal, Option.bind_some, after?, after?]
      simp [next, ended, equal, dense, isQuoted]

theorem after?_attributeSpan? {c : UInt8} {cs : Bytes} (dense : isTagSpace c = false) (more : c ≠ gt) :
    between.after? (c :: cs) =
      (attributeSpan? (c :: cs)).bind fun found => between.after? found.2 := by
  have value : (attributeSpan? (c :: cs)).bind (fun found => between.after? found.2) =
      key.after? (afterKey (c :: cs)) := by
    rw [after?_valueSpan?, attributeSpan?, Option.bind_map]
    rfl
  rw [value, after?, if_neg fun ends => more ends.1]
  by_cases ended : c = slash
  · -- a slash alone has no key
    subst ended
    simp [afterKey, inKey, after?, next, show slash ≠ equals by decide, show slash ≠ gt by decide]
  · have behind : afterKey (c :: cs) = cs.dropWhile inKey := by
      by_cases equal : c = equals
      · rw [afterKey, if_pos equal]
      · rw [afterKey, if_neg equal,
          List.dropWhile_cons_of_pos (by simp [inKey, dense, ended, more, equal])]
    rw [behind, after?_inKey, next, if_neg (by simp [dense, ended])]

/-- Read a byte at a time, a tag ends where its reader says. -/
theorem after?_tagEndSpan? (afterSlash : Bool) (s : Bytes) :
    between.after? s = (tagEndSpan? afterSlash s).map Prod.snd := by
  have skips (s : Bytes) : between.after? (skipSpace s) = between.after? s :=
    after?_skipSpace (fun c space => by rw [next, if_pos (.inl space)]) s
  fun_induction tagEndSpan? afterSlash s with
  | case1 afterSlash s none => rw [← skips, none]; rfl
  | case2 afterSlash s cs first => rw [← skips, first]; rfl
  | case3 afterSlash s c cs first more unread =>
    rw [← skips, first, after?_attributeSpan? (isTagSpace_of_skipSpace first) more, unread]
    rfl
  | case4 afterSlash s c cs first more attr rest span shorter fits ih =>
    rw [← skips, first, after?_attributeSpan? (isTagSpace_of_skipSpace first) more, span,
      Option.bind_some, ih, Option.map_map]
    rfl

end Reading

end TagState

/-- Where the search for the end of a tag stands, in a text without blocks. -/
inductive SearchState where
  | outside (afterEquals : Bool)
  /-- In a string; `escaped` says that a backslash takes the next byte. -/
  | string (mark : UInt8) (escaped : Bool)
  deriving DecidableEq, Repr

namespace SearchState

/-- The state after `c`, if `c` does not end the search. -/
def next (c : UInt8) : SearchState → SearchState
  | outside afterEquals =>
    if (c = quote ∨ c = apostrophe) ∧ afterEquals then string c false
    else outside (c == equals || (afterEquals && isTagSpace c))
  | string mark escaped =>
    if escaped then string mark false
    else if c = backslash then string mark true
    else if c = mark then outside false
    else string mark false

/-- The search comes to a `>` before a `<`. -/
def finds : SearchState → Bytes → Bool
  | _, [] => false
  | outside afterEquals, c :: cs =>
    if c = gt then true else if c = lt then false else ((outside afterEquals).next c).finds cs
  | string mark escaped, c :: cs => ((string mark escaped).next c).finds cs

theorem finds_string (mark : UInt8) (escaped : Bool) (s : Bytes) :
    (string mark escaped).finds s = (afterQuoted? mark escaped s).elim false (outside false).finds := by
  induction s generalizing escaped with
  | nil => rfl
  | cons c cs ih =>
    rw [finds, next, afterQuoted?]
    split_ifs
    · exact ih false
    · exact ih true
    · rfl
    · exact ih false

end SearchState

theorem afterQuoted?_suffix {mark : UInt8} {escaped : Bool} {s rest : Bytes}
    (h : afterQuoted? mark escaped s = some rest) : rest <:+ s := by
  fun_induction afterQuoted? mark escaped s with
  | case1 => cases h
  | case2 c cs ih => exact (ih h).trans (List.suffix_cons _ _)
  | case3 escaped cs _ ih => exact (ih h).trans (List.suffix_cons _ _)
  | case4 => cases h; exact List.suffix_cons _ _
  | case5 escaped c cs _ _ _ ih => exact (ih h).trans (List.suffix_cons _ _)

/-- Without a block in the text, the search goes a byte at a time. -/
theorem closesTag_eq_finds {s : Bytes} (braceless : lbrace ∉ s) (afterBackslash afterEquals : Bool) :
    closesTag .brace afterBackslash afterEquals s = (SearchState.outside afterEquals).finds s := by
  induction size : s.length using Nat.strongRecOn generalizing s afterBackslash afterEquals with
  | ind size ih =>
    cases s with
    | nil => rw [closesTag, SearchState.finds]
    | cons c cs =>
      rw [List.length_cons] at size
      rw [List.mem_cons, not_or] at braceless
      have noBlock : Delimiters.brace.afterBlock? afterBackslash (c :: cs) = none :=
        if_neg fun block => braceless.1 block.1.symm
      rw [closesTag_cons, noBlock, SearchState.finds, SearchState.next]
      simp only
      split_ifs with closes opens value
      · rfl
      · rfl
      · rw [SearchState.finds_string]
        cases left : afterQuoted? c false cs with
        | none => rfl
        | some rest =>
          have shorter := length_afterQuoted?_lt left
          have within : lbrace ∉ rest := fun mem => braceless.2 ((afterQuoted?_suffix left).mem mem)
          exact ih rest.length (by omega) within false false rfl
      · exact ih cs.length (by omega) braceless.2 _ _ rfl

/-- The last byte of `s` other than white space is an equals sign. -/
def endsInEquals (s : Bytes) : Bool := (s.reverse.dropWhile isTagSpace).head? == some equals

/-- An odd number of backslashes ends `s`. -/
def endsEscaped (s : Bytes) : Bool := (s.reverse.takeWhile (· == backslash)).length % 2 == 1

theorem endsInEquals_concat (s : Bytes) (c : UInt8) :
    endsInEquals (s ++ [c]) = (c == equals || (endsInEquals s && isTagSpace c)) := by
  rw [endsInEquals, List.reverse_append, List.reverse_singleton, List.singleton_append]
  by_cases space : isTagSpace c = true
  · have other : c ≠ equals := by rintro rfl; cases space
    rw [List.dropWhile_cons_of_pos space]
    simp [endsInEquals, space, other]
  · rw [List.dropWhile_cons_of_neg space]
    simp [space]

theorem endsEscaped_concat (s : Bytes) (c : UInt8) :
    endsEscaped (s ++ [c]) = (c == backslash && !endsEscaped s) := by
  rw [endsEscaped, endsEscaped, List.reverse_append, List.reverse_singleton, List.singleton_append]
  by_cases escape : c = backslash
  · rw [List.takeWhile_cons_of_pos (by simp [escape])]
    simp only [List.length_cons, escape, beq_self_eq_true, Bool.true_and]
    grind
  · rw [List.takeWhile_cons_of_neg (by simp [escape])]
    simp [escape]

/-- `p` holds of every byte of `s` and the text before it, if `before` stands before `s`. -/
def EveryByte (p : Bytes → UInt8 → Prop) : (before s : Bytes) → Prop
  | _, [] => True
  | before, c :: cs => p before c ∧ EveryByte p (before ++ [c]) cs

instance EveryByte.decidable {p : Bytes → UInt8 → Prop} [∀ before c, Decidable (p before c)] :
    (before s : Bytes) → Decidable (EveryByte p before s)
  | _, [] => isTrue trivial
  | before, c :: cs =>
    haveI := EveryByte.decidable (p := p) (before ++ [c]) cs
    inferInstanceAs (Decidable (p before c ∧ EveryByte p (before ++ [c]) cs))

namespace TagState

/-- Behind `before`, the byte `c` opens or closes no string that is not a quoted value: a quote after
an equals sign opens a value or stands in one, and the quote that closes a value is not escaped. -/
def InStep (before : Bytes) (c : UInt8) : Prop :=
  (c = quote ∨ c = apostrophe → endsInEquals before = true →
    reached before = due ∨ (reached before).isQuoted = true) ∧
  (reached before = quoted c → endsEscaped before = false)

/-- If `c` is a `<`, it stands in a quoted value. -/
def Covered (before : Bytes) (c : UInt8) : Prop := c = lt → (reached before).isQuoted = true

instance (before : Bytes) (c : UInt8) : Decidable (InStep before c) := inferInstanceAs (Decidable (_ ∧ _))

instance (before : Bytes) (c : UInt8) : Decidable (Covered before c) := inferInstanceAs (Decidable (_ → _))

/-- A value is due behind an equals sign, and a quoted one opens with a quote. -/
theorem reached_spec (s : Bytes) :
    (reached s = due → endsInEquals s = true) ∧
      ∀ mark, reached s = quoted mark → mark = quote ∨ mark = apostrophe := by
  induction s using List.reverseRecOn with
  | nil => simp [reached]
  | append_singleton s c ih =>
    rw [reached_concat, endsInEquals_concat]
    cases state : reached s <;> rw [state] at ih <;> simp only [next] <;> split_ifs <;> simp_all

/-- Where the search stands after `s`, if it goes in step with the reader. -/
def search (s : Bytes) : SearchState :=
  match reached s with
  | quoted mark => .string mark (endsEscaped s)
  | _ => .outside (endsInEquals s)

theorem search_quoted {s : Bytes} {mark : UInt8} (h : reached s = quoted mark) :
    search s = .string mark (endsEscaped s) := by
  rw [search, h]

theorem search_outside {s : Bytes} (h : (reached s).isQuoted = false) :
    search s = .outside (endsInEquals s) := by
  rw [search]
  cases state : reached s <;> simp_all [isQuoted]

theorem quote_spec {c : UInt8} (h : c = quote ∨ c = apostrophe) :
    isTagSpace c = false ∧ c ≠ backslash ∧ c ≠ equals ∧ c ≠ lt := by
  rcases h with rfl | rfl <;> decide

/-- A byte keeps the two in step. -/
theorem search_concat {before : Bytes} {c : UInt8} (inStep : InStep before c) :
    (search before).next c = search (before ++ [c]) := by
  obtain ⟨opens, closes⟩ := inStep
  obtain ⟨equal, marked⟩ := reached_spec before
  cases inside : (reached before).isQuoted with
  | true =>
    obtain ⟨mark, state⟩ := exists_of_isQuoted inside
    have after : reached (before ++ [c]) = if c = mark then between else quoted mark := by
      rw [reached_concat, state, next]
    rw [search_quoted state, SearchState.next]
    by_cases closed : c = mark
    · subst closed
      obtain ⟨dense, unescaped, unequal, -⟩ := quote_spec (marked c state)
      rw [if_pos rfl] at after
      rw [search_outside (by rw [after]; rfl), endsInEquals_concat, closes state,
        if_neg Bool.false_ne_true, if_neg unescaped, if_pos rfl]
      simp [dense, unequal]
    · rw [if_neg closed] at after
      rw [search_quoted after, endsEscaped_concat]
      cases endsEscaped before <;> by_cases escape : c = backslash <;> simp [escape, closed]
  | false =>
    rw [search_outside inside, SearchState.next]
    by_cases value : (c = quote ∨ c = apostrophe) ∧ endsInEquals before = true
    · have state := (opens value.1 value.2).resolve_right (by rw [inside]; decide)
      obtain ⟨dense, unescaped, -⟩ := quote_spec value.1
      have after : reached (before ++ [c]) = quoted c := by
        rw [reached_concat, state, next, if_neg (by rw [dense]; decide), if_pos value.1]
      rw [if_pos value, search_quoted after, endsEscaped_concat]
      simp [unescaped]
    · -- only a due value opens with a quote
      have after : (reached (before ++ [c])).isQuoted = false := by
        rw [reached_concat]
        cases state : reached before with
        | due =>
          have unquoted : ¬(c = quote ∨ c = apostrophe) := fun quote => value ⟨quote, equal state⟩
          rw [next, if_neg unquoted]
          split_ifs <;> rfl
        | quoted mark => rw [state] at inside; cases inside
        | between | key | bare => simp only [next]; split_ifs <;> rfl
      rw [if_neg value, search_outside after, endsInEquals_concat]

/-- The search finds the end of a tag, unless a `<` stands outside the quoted values. -/
theorem finds_iff {before s : Bytes} (inStep : EveryByte InStep before s)
    (ends : (reached before).after? (s ++ [gt]) = some []) :
    (search before).finds (s ++ [gt]) = true ↔ EveryByte Covered before s := by
  induction s generalizing before with
  | nil =>
    cases inside : (reached before).isQuoted with
    | true => simp [after?, inside] at ends
    | false => simp [search_outside inside, SearchState.finds, EveryByte]
  | cons c cs ih =>
    rw [EveryByte] at inStep
    have later := search_concat inStep.1
    rw [List.cons_append, after?] at ends
    cases inside : (reached before).isQuoted with
    | true =>
      obtain ⟨mark, state⟩ := exists_of_isQuoted inside
      rw [if_neg (by simp [inside]), ← reached_concat] at ends
      rw [search_quoted state] at later ⊢
      rw [List.cons_append, SearchState.finds, later, ih inStep.2 ends]
      simp [EveryByte, Covered, inside]
    | false =>
      have more : c ≠ gt := by
        rintro rfl
        rw [if_pos ⟨rfl, inside⟩] at ends
        simp at ends
      rw [if_neg fun closed => more closed.1, ← reached_concat] at ends
      rw [search_outside inside] at later ⊢
      rw [List.cons_append, SearchState.finds, if_neg more, later]
      by_cases opens : c = lt
      · simp [opens, EveryByte, Covered, inside]
      · rw [if_neg opens, ih inStep.2 ends]
        simp [EveryByte, Covered, opens]

/-- Behind the name of a tag without blocks, the search closes the tag unless a `<` stands outside the
quoted values. -/
theorem closesTag_iff {s : Bytes} {afterSlash : Bool} {tail : TagEnd} (braceless : lbrace ∉ s)
    (span : tagEndSpan? afterSlash (s ++ [gt]) = some (tail, [])) (inStep : EveryByte InStep [] s) :
    closesTag .brace false false (s ++ [gt]) = true ↔ EveryByte Covered [] s := by
  have whole : lbrace ∉ s ++ [gt] := by simpa using ⟨braceless, by decide⟩
  have ends : (reached []).after? (s ++ [gt]) = some [] := by
    have read := after?_tagEndSpan? afterSlash (s ++ [gt])
    rwa [span] at read
  rw [closesTag_eq_finds whole]
  exact finds_iff inStep ends

end TagState
end DomTemplate
