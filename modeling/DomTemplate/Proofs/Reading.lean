import DomTemplate.Proofs.References
import DomTemplate.Proofs.Tokens

/-! What reading a template comes to, for every source. Either it gives a document whose
places are bytes of the source and whose tags have names, or it is refused at a byte of the
source, or a character reference has written a mark that no block has. -/

namespace DomTemplate
open Ascii

/-- The place of a byte of `src`. -/
def Pos.IsIn (src : Bytes) (pos : Pos) : Prop := ∃ off < src.length, pos = Pos.ofOffset src off

/-- The error points at a byte of the source. -/
def TemplateError.Located (src : Bytes) (e : TemplateError) : Prop :=
  ∃ pos, e.position? = some pos ∧ pos.IsIn src

namespace Failure

/-- A refusal that points at a byte of the source. -/
def Located (src : Bytes) (f : Failure) : Prop := ∃ e, f = refused e ∧ e.Located src

/-- A failure over a mark that no block has. -/
def isOverMark : Failure → Bool
  | refused (.malformedMark _) => true
  | crashed (.indexOutOfRange n) => n < 0
  | _ => false

end Failure

theorem Bytes.length_splitOn (sep : UInt8) (s : Bytes) :
    (Bytes.splitOn sep s).length = 1 + s.count sep := by
  induction s with
  | nil => rfl
  | cons c cs ih =>
    rw [splitOn, List.count_cons]
    split
    · rename_i same
      simp only [same, beq_self_eq_true, if_true, List.length_cons, ih]
      omega
    · rename_i other
      have differs : (c == sep) = false := by simpa using other
      cases pieces : splitOn sep cs with
      | nil => rw [pieces, List.length_nil] at ih; omega
      | cons piece pieces' =>
        rw [pieces] at ih
        simpa [differs] using ih

theorem Pos.IsIn.line {src : Bytes} {pos : Pos} (h : pos.IsIn src) :
    1 ≤ pos.line ∧ pos.line ≤ (Bytes.splitOn lf src).length := by
  obtain ⟨off, -, rfl⟩ := h
  have fewer := (List.take_sublist off src).count_le lf
  rw [Bytes.length_splitOn]
  simp only [Pos.ofOffset]
  omega

/-- The errors with a place point at it if it is one. -/
theorem TemplateError.Located.of_place {src : Bytes} {e : TemplateError} {pos : Pos} (h : pos.IsIn src)
    (about : e.position? = if pos.isPlace then some pos else none) : e.Located src := by
  refine ⟨pos, ?_, h⟩
  have place : pos.isPlace = true := by
    have line := h.line
    simp only [Pos.isPlace, decide_eq_true_eq]
    omega
  rw [about, if_pos place]

theorem Failure.located_unreadable {src : Bytes} {pos : Pos} (h : pos.IsIn src)
    (fault : SourceFault) : (Failure.refused (.unreadable pos fault)).Located src :=
  ⟨_, rfl, .of_place h rfl⟩

/-- A byte that no line ends with. -/
abbrev Bytes.IsInk (b : UInt8) : Prop := b ≠ lf ∧ b ≠ cr

/-- A result is as `good` says, and a failure as `accepts` says. -/
def Answers {α : Type} (accepts : Failure → Prop) (good : α → Prop) : Except Failure α → Prop
  | .ok a => good a
  | .error f => accepts f

namespace Answers
variable {α β : Type} {accepts accepts' : Failure → Prop} {good good' : α → Prop}

theorem mono {r : Except Failure α} (h : Answers accepts good r)
    (failures : ∀ f, accepts f → accepts' f) (results : ∀ a, good a → good' a) :
    Answers accepts' good' r := by
  cases r with
  | ok a => exact results a h
  | error f => exact failures f h

theorem bind {fine : β → Prop} {m : Except Failure α} {k : α → Except Failure β}
    (h : Answers accepts good m) (next : ∀ a, good a → Answers accepts fine (k a)) :
    Answers accepts fine (m >>= k) := by
  cases m with
  | ok a => exact next a h
  | error f => exact h

theorem map {fine : β → Prop} {m : Except Failure α} {k : α → β} (h : Answers accepts good m)
    (next : ∀ a, good a → fine (k a)) : Answers accepts fine (m.map k) := by
  cases m with
  | ok a => exact next a h
  | error f => exact h

theorem mapM {f : β → Except Failure α} {xs : List β}
    (each : ∀ x ∈ xs, Answers accepts good (f x)) :
    Answers accepts (fun ys => ∀ y ∈ ys, good y) (xs.mapM f) := by
  induction xs with
  | nil => exact fun y mem => absurd mem List.not_mem_nil
  | cons x xs ih =>
    rw [List.forall_mem_cons] at each
    rw [List.mapM_cons]
    refine each.1.bind fun y goodY => (ih each.2).bind fun ys goodYs => ?_
    exact List.forall_mem_cons.mpr ⟨goodY, goodYs⟩

theorem optionMapM {f : β → Except Failure α} {x : Option β}
    (each : ∀ b, x = some b → Answers accepts good (f b)) :
    Answers accepts (fun y => ∀ a, y = some a → good a) (x.mapM f) := by
  cases x with
  | none => exact nofun
  | some b =>
    have inner := each b rfl
    rw [Option.mapM_some]
    cases result : f b with
    | error e => rw [result] at inner; exact inner
    | ok a =>
      rw [result] at inner
      rintro a' ⟨⟩
      exact inner

/-- What happens only if `sound` fails, where a result is certain if it holds. -/
theorem barring {sound : Prop} {r : Except Failure α} (h : Answers accepts good r)
    (certain : sound → ∃ a, r = .ok a) : Answers (fun f => ¬sound ∧ accepts f) good r := by
  cases r with
  | ok a => exact h
  | error f =>
    refine ⟨fun holds => ?_, h⟩
    obtain ⟨a, result⟩ := certain holds
    cases result

end Answers

/-- A part as it comes from a source. -/
def Part.isRead : Part → Bool
  | raw _ | code _ => true
  | absent | misplaced _ => false

section Splitting
variable {blocks : List (Nat × Block)}

theorem firstMark_negative {s : Bytes} {n : Int} (h : firstMark blocks s = .negative n) : n < 0 := by
  rw [firstMark] at h
  split at h
  · cases h
  split at h
  · cases h
  split at h
  · cases h
  split at h
  · rename_i negative
    cases h
    exact negative
  · split at h <;> cases h

theorem source_code_ne_nil (block : Code) : (Part.code block).source ≠ [] := by
  obtain ⟨kind, source, pos⟩ := block
  cases kind <;> simp [Part.source, utf8]

/-- The parts of a text are literals and code, and there are some if there is text. -/
theorem expand_parts (blocks : List (Nat × Block)) (src s : Bytes) :
    Answers (fun f => f.isOverMark = true)
      (fun parts => (∀ p ∈ parts, p.isRead = true) ∧ (s ≠ [] → partsSource parts ≠ []))
      (expand src blocks s) := by
  fun_induction expand src blocks s with
  | case1 s empty => exact ⟨by simp, fun text => absurd (List.isEmpty_iff.mp empty) text⟩
  | case2 s text first => exact ⟨by simp [Part.isRead], by simp [partsSource, Part.source]⟩
  | case3 => rfl
  | case4 s text n first => simpa [Answers, Failure.isOverMark] using firstMark_negative first
  | case5 s text head offset b rest first shorter ih =>
    refine ih.map fun parts known => ?_
    dsimp only
    split
    · refine ⟨by simpa [Part.isRead] using known.1, fun _ => ?_⟩
      simp [partsSource, source_code_ne_nil]
    · refine ⟨by simpa [Part.isRead] using known.1, fun _ => ?_⟩
      simp [partsSource, source_code_ne_nil]

theorem unmask_failure (blocks : List (Nat × Block)) (s : Bytes) :
    Answers (fun f => f.isOverMark = true) (fun _ => True) (unmask blocks s) := by
  fun_induction unmask blocks s with
  | case1 | case2 => trivial
  | case3 s n first => simpa [Answers, Failure.isOverMark] using firstMark_negative first
  | case4 s head offset b rest first shorter ih => exact ih.map fun _ _ => trivial

end Splitting

section Masking
variable {d : Delimiters} {state : MaskState} {context : BraceContext} {s : Bytes} {m : Masked}

theorem Cut.written_ne_nil (cut : Cut d state context s m) : ∀ p ∈ m, p.written ≠ [] := by
  induction cut with
  | nil => simp
  | escape after ih =>
    rw [List.forall_mem_cons]
    exact ⟨by cases d <;> decide, ih⟩
  | block encloses nonempty allowed after ih =>
    rw [List.forall_mem_cons]
    obtain ⟨c, cs, rfl⟩ := Delimiters.Encloses.ne_nil encloses
    exact ⟨List.cons_ne_nil _ _, ih⟩
  | byte plain after ih =>
    rw [List.forall_mem_cons]
    exact ⟨List.cons_ne_nil _ _, ih⟩

/-- A byte of the masked text comes from a byte of the source. -/
theorem Masked.sourceOffset_lt (written : ∀ p ∈ m, p.written ≠ []) {off : Nat}
    (inside : off < m.text.length) : m.sourceOffset off < m.source.length := by
  induction m generalizing off with
  | nil => cases inside
  | cons p m ih =>
    rw [List.forall_mem_cons] at written
    have some : 0 < p.written.length := List.length_pos_iff.mpr written.1
    rw [Masked.text, List.flatMap_cons, ← Masked.text, List.length_append] at inside
    rw [Masked.source, List.flatMap_cons, ← Masked.source, List.length_append,
      Masked.sourceOffset]
    split
    · omega
    · have later := @ih written.2 (off - p.shown.length) (by omega)
      omega

theorem Masked.length_blocksFrom_le (written : ∀ p ∈ m, p.written ≠ []) (start : Nat) :
    (m.blocksFrom start).length ≤ m.source.length := by
  induction m generalizing start with
  | nil => simp [Masked.blocksFrom]
  | cons p m ih =>
    rw [List.forall_mem_cons] at written
    have some : 0 < p.written.length := List.length_pos_iff.mpr written.1
    have later := ih written.2
    rw [Masked.source, List.flatMap_cons, ← Masked.source, List.length_append]
    cases p with
    | block b =>
      have rest := later (start + b.written.length)
      simp only [Masked.blocksFrom, List.length_cons]
      omega
    | byte b | escape written shown =>
      simp only [Masked.blocksFrom]
      exact Nat.le_trans (later _) (Nat.le_add_left _ _)

theorem map_error {p : Piece} {r : Except MaskFault Masked} {fault : MaskFault}
    (h : r.map (p :: ·) = .error fault) : r = .error fault := by
  cases r with
  | error e => cases h; rfl
  | ok m => cases h

theorem blockPiece_error {kindCode : CodeKind × Bytes} {written rest : Bytes} {fault : MaskFault}
    (h : state.blockPiece d kindCode written rest = .error fault) : fault.offset = state.offset := by
  simp only [MaskState.blockPiece] at h
  split at h
  · cases h; rfl
  · cases h

/-- The fault of a source is at a byte `b` of it. -/
def MaskFault.StartsWith (b : UInt8) (state : MaskState) (s : Bytes) (fault : MaskFault) : Prop :=
  ∃ front rest, s = front ++ b :: rest ∧ fault.offset = state.offset + front.length

theorem MaskFault.StartsWith.behind {b : UInt8} {p : Piece} {s' : Bytes} {fault : MaskFault}
    (later : fault.StartsWith b (state.push p) s') (split : s = p.written ++ s') :
    fault.StartsWith b state s := by
  obtain ⟨front, rest, rfl, offset⟩ := later
  refine ⟨p.written ++ front, rest, by rw [split, List.append_assoc], ?_⟩
  rw [offset, List.length_append, ← Nat.add_assoc]
  rfl

/-- A block that cannot be masked starts with its brace. -/
theorem maskBrace_error {fault : MaskFault} (h : maskBrace state context s = .error fault) :
    fault.StartsWith lbrace state s := by
  fun_induction maskBrace state context s with
  | case1 => cases h
  | case2 state context c cs escape p ih =>
    refine (ih (map_error h)).behind ?_
    obtain ⟨rfl, second⟩ := escape
    obtain ⟨tail, rfl⟩ := List.head?_eq_some_iff.mp second
    rfl
  | case3 state context c cs noEscape opens unterminated =>
    cases h
    exact ⟨[], cs, by rw [opens.1]; rfl, rfl⟩
  | case4 state context c cs noEscape opens inner rest span shorter fault' failed =>
    cases h
    exact ⟨[], cs, by rw [opens.1]; rfl, blockPiece_error (d := .brace) failed⟩
  | case5 state context c cs noEscape opens inner rest span shorter p made ih =>
    refine (ih (map_error h)).behind ?_
    obtain ⟨-, rfl⟩ := (blockPiece_ok (d := .brace)).mp made
    rw [(braceSpan?_spec span).1, opens.1]
    simp [MaskState.block, Piece.written]
  | case6 state context c cs noEscape noBlock p ih => exact (ih (map_error h)).behind rfl

theorem maskErb_error {fault : MaskFault} (h : maskErb state s = .error fault) :
    fault.StartsWith lt state s := by
  fun_induction maskErb state s with
  | case1 => cases h
  | case2 state c cs escape p ih =>
    refine (ih (map_error h)).behind ?_
    obtain ⟨rfl, second, third⟩ := isPrefixOf_erbEscape.mp escape
    obtain ⟨tail, rfl⟩ := List.head?_eq_some_iff.mp second
    obtain ⟨tail, rfl⟩ := List.head?_eq_some_iff.mp third
    rfl
  | case3 state c cs noEscape opens unterminated =>
    cases h
    exact ⟨[], cs, by rw [(isPrefixOf_erbOpen.mp opens).1]; rfl, rfl⟩
  | case4 state c cs noEscape opens inner rest span shorter fault' failed =>
    cases h
    exact ⟨[], cs, by rw [(isPrefixOf_erbOpen.mp opens).1]; rfl, blockPiece_error (d := .erb) failed⟩
  | case5 state c cs noEscape opens inner rest span shorter p made ih =>
    refine (ih (map_error h)).behind ?_
    obtain ⟨split, -⟩ := Bytes.cut?_spec (by decide) span
    obtain ⟨-, rfl⟩ := (blockPiece_ok (d := .erb)).mp made
    obtain ⟨rfl, second⟩ := isPrefixOf_erbOpen.mp opens
    obtain ⟨tail, rfl⟩ := List.head?_eq_some_iff.mp second
    rw [List.drop_one, List.tail_cons] at split
    rw [split]
    simp [MaskState.block, Piece.written, show erbOpen = [lt, percent] by decide]
  | case6 state c cs noEscape noBlock p ih => exact (ih (map_error h)).behind rfl

/-- What cannot be masked starts with the first byte of a delimiter. -/
theorem Masked.ofSource_error {src : Bytes} {fault : MaskFault} (h : Masked.ofSource d src = .error fault) :
    ∃ front b rest, src = front ++ b :: rest ∧ fault.offset = front.length ∧ Bytes.IsInk b := by
  cases d with
  | brace =>
    obtain ⟨front, rest, split, offset⟩ := maskBrace_error h
    exact ⟨front, lbrace, rest, split, offset.trans (Nat.zero_add _), by decide⟩
  | erb =>
    obtain ⟨front, rest, split, offset⟩ := maskErb_error h
    exact ⟨front, lt, rest, split, offset.trans (Nat.zero_add _), by decide⟩

end Masking

/-- An attribute as it comes from a source. -/
structure Attribute.IsRead (src : Bytes) (a : Attribute) : Prop where
  place : a.pos.IsIn src
  name : ∀ p ∈ a.name.getD [], p.isRead = true
  value : ∀ v, a.value = some v → ∀ p ∈ v.parts, p.isRead = true

/-- A tag as it comes from a source; it has a name. -/
structure Tag.IsRead (src : Bytes) (t : Tag) : Prop where
  place : t.pos.IsIn src
  source : t.source ≠ []
  name : ∀ p ∈ t.name.getD [], p.isRead = true
  attrs : ∀ a ∈ t.attrs.getD [], ∃ b : Attribute, a = some b ∧ b.IsRead src

def Node.IsRead (src : Bytes) : Node → Prop
  | tag t => t.IsRead src
  | text parts => ∀ p ∈ parts, p.isRead = true
  | comment _ pos | doctype _ pos => pos.IsIn src
  | absent | code _ | raw _ | misplaced _ => False

namespace MaskedSource

/-- The pieces are those of the source, whose length is a signed 64-bit number. -/
structure Faithful (m : MaskedSource) : Prop where
  source : m.masked.source = m.src
  written : ∀ p ∈ m.masked, p.written ≠ []
  small : m.src.length < Bytes.signedLimit

/-- Every mark in the masked text is that of a block, and no reference writes another. -/
def IsSound (m : MaskedSource) : Prop := Sound m.masked.blocks.length m.masked.text

/-- How reading may fail. -/
def Refuses (m : MaskedSource) (f : Failure) : Prop :=
  f.Located m.src ∨ (¬m.IsSound ∧ f.isOverMark = true)

variable {m : MaskedSource}

theorem pos_isIn (h : m.Faithful) {off : Nat} (inside : off < m.masked.text.length) :
    (m.pos off).IsIn m.src := by
  have offset := Masked.sourceOffset_lt h.written inside
  rw [h.source] at offset
  exact ⟨_, offset, rfl⟩

theorem few_blocks (h : m.Faithful) : m.masked.blocks.length ≤ Bytes.signedLimit := by
  have fewer := Masked.length_blocksFrom_le h.written 0
  rw [h.source] at fewer
  exact Nat.le_of_lt (Nat.lt_of_le_of_lt fewer h.small)

theorem expand_answers (h : m.Faithful) {s : Bytes}
    (marked : m.IsSound → WellMarked m.masked.blocks.length s) :
    Answers m.Refuses
      (fun parts => (∀ p ∈ parts, p.isRead = true) ∧ (s ≠ [] → partsSource parts ≠ []))
      (m.expand s) := by
  have parts := (expand_parts m.masked.blocks m.src s).barring fun sound =>
    expand_of_wellMarked m.src (marked sound) (few_blocks h)
  exact parts.mono (fun f failed => .inr failed) fun _ known => known

theorem unmask_answers (h : m.Faithful) {s : Bytes}
    (marked : m.IsSound → WellMarked m.masked.blocks.length s) :
    Answers m.Refuses (fun _ => True) (unmask m.masked.blocks s) := by
  have text := (unmask_failure m.masked.blocks s).barring fun sound =>
    unmask_of_wellMarked (marked sound) (few_blocks h)
  exact text.mono (fun f failed => .inr failed) fun _ _ => trivial

section Tags
variable {raw : Bytes} {start : Nat}

theorem attr_answers (h : m.Faithful) {a : RawAttribute} (reads : a.Reads raw raw.length)
    (slice : Slice raw m.masked.text) (nonempty : raw ≠ [])
    (fits : start + raw.length ≤ m.masked.text.length) :
    Answers m.Refuses (Attribute.IsRead m.src) (m.attr start a) := by
  have offset := reads.offset (List.length_pos_iff.mpr nonempty)
  have place : (m.pos (start + a.offset)).IsIn m.src := pos_isIn h (by omega)
  refine (expand_answers h fun sound => (sound.slice (reads.key.trans slice)).lower).bind
    fun name named => ?_
  have valued : Answers m.Refuses
      (fun value => ∀ v : AttrValue, value = some v → ∀ p ∈ v.parts, p.isRead = true)
      (a.value.mapM fun v => do
        return { quote := v.quote, parts := ← m.expand (Markup.Entity.decode v.text) }) := by
    refine Answers.optionMapM fun v written => ?_
    have inner := (reads.value v written).trans slice
    exact (expand_answers h fun sound => (sound.slice inner).decode).bind fun parts known => known.1
  exact valued.bind fun value known => ⟨place, named.1, known⟩

theorem tag_answers (h : m.Faithful) {opener : Nat} {closing solidus : Bool} {b : UInt8}
    {body : Bytes} (opened : raw.drop opener = b :: body) (letter : isLetter b = true)
    (slice : Slice raw m.masked.text) (fits : start + raw.length ≤ m.masked.text.length) :
    Answers m.Refuses (Tag.IsRead m.src) (m.tag raw start opener closing solidus) := by
  have nonempty : raw ≠ [] := by
    rintro rfl
    simp at opened
  have positive := List.length_pos_iff.mpr nonempty
  have place : (m.pos start).IsIn m.src := pos_isIn h (by omega)
  have ends : b :: body <:+ raw := opened ▸ List.drop_suffix _ _
  have name : Slice ((b :: body).takeWhile (!Markup.endsName ·)) m.masked.text :=
    ((Slice.of_takeWhile (Bytes.forall_byte (by decide +kernel)) _).of_suffix_right ends).trans slice
  -- the name holds its first letter, so that the tag has a source
  have named : Bytes.lower ((b :: body).takeWhile (!Markup.endsName ·)) ≠ [] := by
    have inName : ∀ b, isLetter b = true → (!Markup.endsName b) = true :=
      Bytes.forall_byte (by decide +kernel)
    simp [Bytes.lower, inName b letter]
  rw [tag, opened]
  refine (expand_answers h fun sound => (sound.slice name).lower).bind fun parts known => ?_
  have finished (attrs : List Attribute) (read : ∀ a ∈ attrs, a.IsRead m.src) :
      Tag.IsRead m.src ⟨some parts, if attrs.isEmpty then none else some (attrs.map some), closing,
        solidus, m.pos start⟩ := by
    refine ⟨place, known.2 named, known.1, fun a mem => ?_⟩
    cases attrs with
    | nil => cases mem
    | cons first attrs =>
      obtain ⟨a', written, rfl⟩ := List.mem_map.mp (show a ∈ (first :: attrs).map some from mem)
      exact ⟨a', rfl, read a' written⟩
  cases closing with
  | true => exact finished [] (by simp)
  | false =>
    refine Answers.bind (Answers.mapM fun a mem => attr_answers h ?_ slice nonempty fits) finished
    exact RawAttribute.ofTag_reads ((List.dropWhile_suffix _).trans ends) a mem

end Tags

section Tokens
variable {start : Nat}

theorem node?_answers (h : m.Faithful) {t : Markup.Token} {s : Bytes} (reads : t.Reads s)
    (ends : s <:+ m.masked.text) (nonempty : t.raw ≠ [])
    (fits : start + t.raw.length ≤ m.masked.text.length) :
    Answers m.Refuses (fun node => ∀ n, node = some n → n.IsRead m.src) (m.node? start t) := by
  have positive := List.length_pos_iff.mpr nonempty
  have place : (m.pos start).IsIn m.src := pos_isIn h (by omega)
  cases t with
  | text raw shown =>
    obtain ⟨t, slice, shows⟩ := reads
    have inner := slice.of_suffix_right ends
    refine (expand_answers h fun sound => ?_).bind fun parts known => ?_
    · rcases shows with rfl | ⟨element, rfl⟩
      · exact (sound.slice inner).shownText
      · exact (sound.slice inner).shownRaw element
    · intro n same
      split at same <;> cases same
      exact known.1
  | startTag raw parts =>
    obtain ⟨slice, a, b, rest, rfl, letter⟩ := reads
    refine (tag_answers (b := b) h rfl letter (slice.of_suffix_right ends) fits).bind fun t read => ?_
    rintro n ⟨⟩
    exact read
  | endTag raw =>
    obtain ⟨slice, a, b, c, rest, rfl, letter⟩ := reads
    refine (tag_answers (b := c) h rfl letter (slice.of_suffix_right ends) fits).bind fun t read => ?_
    rintro n ⟨⟩
    exact read
  | comment raw text =>
    obtain ⟨t, slice, rfl⟩ := reads
    have inner := slice.of_suffix_right ends
    refine (unmask_answers h fun sound => (sound.slice inner).shownComment).bind fun text _ => ?_
    rintro n ⟨⟩
    exact place
  | doctype raw text =>
    rintro n ⟨⟩
    exact place
  | unfinished raw => exact .inl (Failure.located_unreadable place _)

/-- The tokens of the rest of a masked text, read from where it starts. -/
theorem nodes_answers (h : m.Faithful) {inside : Option Markup.RawElement} {s : Bytes}
    (ends : s <:+ m.masked.text) (here : start + s.length = m.masked.text.length) :
    Answers m.Refuses (fun ns => ∀ n ∈ ns, n.IsRead m.src)
      (m.nodes start (Markup.tokensFrom inside s)) := by
  fun_induction Markup.tokensFrom inside s generalizing start with
  | case1 => exact fun n mem => absurd mem List.not_mem_nil
  | case2 inside s nonempty shorter ih =>
    obtain ⟨whole, reads⟩ := Markup.firstToken_reads inside s
    have sizes := congrArg List.length whole
    rw [List.length_append] at sizes
    have taken : (Markup.firstToken inside s).1.raw ≠ [] := by
      intro empty
      rw [empty, List.length_nil] at sizes
      omega
    have rest : (Markup.firstToken inside s).2 <:+ m.masked.text :=
      List.IsSuffix.trans ⟨_, whole⟩ ends
    refine (node?_answers h reads ends taken (by omega)).bind fun node read => ?_
    refine (ih rest (by omega)).bind fun ns later n mem => ?_
    rcases List.mem_append.mp mem with first | mem
    · exact read n (Option.mem_toList.mp first)
    · exact later n mem

end Tokens
end MaskedSource

/-- The masked text of `src` holds a reference to the character that opens marks. -/
def Delimiters.namesMark (d : Delimiters) (src : Bytes) : Bool :=
  match Masked.ofSource d src with
  | .ok m => Markup.Entity.refersToMark m.text
  | .error _ => false

theorem Bytes.cut?_eq_none {sep s : Bytes} (h : cut? sep s = none) (rest : Bytes) :
    ¬sep ++ rest <:+ s := by
  intro ends
  induction s with
  | nil =>
    obtain ⟨rfl, -⟩ := List.append_eq_nil_iff.mp (List.suffix_nil.mp ends)
    cases h
  | cons c cs ih =>
    rw [cut?] at h
    split at h
    · cases h
    · rename_i absent
      rcases List.suffix_cons_iff.mp ends with same | later
      · rw [dropPrefix?_eq_some.mpr same.symm] at absent
        cases absent
      · exact ih (Option.map_eq_none_iff.mp h) later

/-- Reserved characters are of three bytes, with the same byte first. -/
theorem reservedOffset?_split {src : Bytes} {off : Nat} (h : reservedOffset? src = some off) :
    ∃ front rest, src = front ++ 0xEE :: rest ∧ off = front.length := by
  have before {mark tail : Bytes} {i : Nat} (head : mark = 0xEE :: tail)
      (found : (Bytes.cut? mark src).map (fun cut => cut.1.length) = some i) :
      ∃ front rest, src = front ++ 0xEE :: rest ∧ i = front.length := by
    subst head
    obtain ⟨⟨front, rest⟩, cut, rfl⟩ := Option.map_eq_some_iff.mp found
    obtain ⟨rfl, -⟩ := Bytes.cut?_spec (List.cons_ne_nil _ _) cut
    exact ⟨front, tail ++ rest, by simp, rfl⟩
  simp only [reservedOffset?] at h
  split at h <;> cases h
  · rename_i i j first second
    rcases Nat.le_total i j with le | le
    · rw [Nat.min_eq_left le]
      exact @before markOpen _ _ rfl first
    · rw [Nat.min_eq_right le]
      exact @before markClose _ _ rfl second
  · rename_i second first
    exact @before markOpen _ _ rfl first
  · rename_i first second
    exact @before markClose _ _ rfl second

theorem clean_of_reservedOffset? {src : Bytes} (h : reservedOffset? src = none) (rest : Bytes) :
    ¬markOpen ++ rest <:+ src := by
  simp only [reservedOffset?] at h
  split at h <;> cases h
  rename_i first second
  exact Bytes.cut?_eq_none (Option.map_eq_none_iff.mp first) rest

/-- Every source is read, or refused at one of its bytes, or names a mark by a reference. -/
theorem Document.parse_answers (d : Delimiters) {src : Bytes} (small : src.length < Bytes.signedLimit) :
    Answers (fun f => f.Located src ∨ (d.namesMark src = true ∧ f.isOverMark = true))
      (fun doc : Document => ∀ n ∈ doc.children, n.IsRead src) (Document.parse d src) := by
  rw [Document.parse]
  cases reserved : reservedOffset? src with
  | some off =>
    obtain ⟨front, rest, rfl, rfl⟩ := reservedOffset?_split reserved
    exact .inl (Failure.located_unreadable ⟨_, by simp, rfl⟩ _)
  | none =>
    cases masked : Masked.ofSource d src with
    | error fault =>
      obtain ⟨front, b, rest, rfl, offset, -⟩ := Masked.ofSource_error masked
      exact .inl (Failure.located_unreadable ⟨_, by simp [offset], rfl⟩ _)
    | ok m =>
      have cut := Masked.ofSource_ok.mp masked
      have faithful : MaskedSource.Faithful ⟨src, m⟩ := ⟨cut.source_eq, cut.written_ne_nil, small⟩
      have marked := cut.wellMarked (clean_of_reservedOffset? reserved) 0
      rw [Nat.zero_add] at marked
      -- marks are those of blocks before references are decoded, so only a reference is to blame
      refine ((MaskedSource.nodes_answers faithful List.suffix_rfl (Nat.zero_add _)).map
        fun ns read => read).mono (fun f refused => ?_) fun _ known => known
      refine refused.imp_right fun astray => ⟨?_, astray.2⟩
      rw [Delimiters.namesMark, masked]
      by_contra clean
      exact astray.1 ⟨marked, by simpa using clean⟩

end DomTemplate
