import DomTemplate.Proofs.Printing
import DomTemplate.Proofs.Reading
import DomTemplate.Proofs.TagLead

/-! The two ways of writing code blocks are interchangeable. A skeleton is literal text with
blocks in it, and does not say how they are set off. Written with braces and written with angle
brackets and percent signs, it is masked alike, as far as its literal text is not taken for a
delimiter and its code for the end of a block or of a quoted value. -/

namespace DomTemplate
open Ascii Bytes

namespace Bytes
variable {s : Bytes}

theorem dropPrefix?_concat {p : Bytes} {b : UInt8} (absent : b ∉ p) (s : Bytes) :
    dropPrefix? p (s ++ [b]) = (dropPrefix? p s).map (· ++ [b]) := by
  induction p generalizing s with
  | nil => rfl
  | cons a p ih =>
    rw [List.mem_cons, not_or] at absent
    cases s with
    | nil => simp [dropPrefix?, Ne.symm absent.1]
    | cons c s =>
      rw [List.cons_append, dropPrefix?, dropPrefix?]
      split
      · exact ih absent.2 s
      · rfl

theorem afterLeading?_concat (nonempty : s ≠ []) :
    afterLeading? blanks (s ++ [space]) = (afterLeading? blanks s).map (· ++ [space]) := by
  have whole : ∀ blank ∈ blanks, blank = [space] ∨ space ∉ blank := by decide
  have each : ∀ blank ∈ blanks,
      dropPrefix? blank (s ++ [space]) = (dropPrefix? blank s).map (· ++ [space]) := by
    intro blank mem
    rcases whole blank mem with rfl | absent
    · obtain ⟨c, s, rfl⟩ := List.exists_cons_of_ne_nil nonempty
      by_cases same : space = c <;> simp [dropPrefix?, same]
    · exact dropPrefix?_concat absent s
  unfold afterLeading?
  generalize blanks = set at each
  induction set with
  | nil => rfl
  | cons blank set ih =>
    rw [List.forall_mem_cons] at each
    rw [List.findSome?_cons, List.findSome?_cons, each.1]
    cases dropPrefix? blank s with
    | none => exact ih each.2
    | some rest => rfl

theorem trimLeft_concat (filled : trimLeft s ≠ []) :
    trimLeft (s ++ [space]) = trimLeft s ++ [space] := by
  unfold trimLeft at filled ⊢
  fun_induction dropLeading blanks s with
  | case1 s rest found shorter ih =>
    have nonempty : s ≠ [] := List.ne_nil_of_length_pos (by omega)
    rw [dropLeading, afterLeading?_concat nonempty, found]
    simp only [Option.map_some, List.length_append, List.length_cons, List.length_nil]
    rw [if_pos (by omega), ih filled]
  | case2 s rest found longer =>
    rw [dropLeading, afterLeading?_concat filled, found]
    simp only [Option.map_some, List.length_append, List.length_cons, List.length_nil]
    rw [if_neg (by omega)]
  | case3 s absent =>
    rw [dropLeading, afterLeading?_concat filled, absent]
    rfl

/-- Spaces around a text do not count. -/
theorem trim_spaces (filled : trim s ≠ []) : trim (space :: s ++ [space]) = trim s := by
  have left (t : Bytes) : trimLeft (space :: t) = trimLeft t := by
    rw [trimLeft, dropLeading]
    have found : afterLeading? blanks (space :: t) = some t := rfl
    rw [found]
    simp only [List.length_cons, Nat.lt_add_one, if_true]
    rfl
  have right (t : Bytes) : trimRight (t ++ [space]) = trimRight t := by
    rw [trimRight, List.reverse_append, List.reverse_cons, List.reverse_nil, List.nil_append,
      List.cons_append, List.nil_append, dropLeading]
    have found : afterLeading? (blanks.map List.reverse) (space :: t.reverse) = some t.reverse :=
      rfl
    rw [found]
    simp only [List.length_cons, Nat.lt_add_one, if_true]
    rfl
  have some : trimLeft s ≠ [] := fun empty => filled (by rw [trim, empty]; decide +kernel)
  rw [List.cons_append, trim, left, trimLeft_concat some, right]
  rfl

theorem Sealed.cut? {sep : Bytes} (nonempty : sep ≠ []) (h : Sealed s sep) (rest : Bytes) :
    cut? sep (s ++ sep ++ rest) = some (s, rest) := by
  induction s with
  | nil =>
    obtain ⟨a, sep, rfl⟩ := List.exists_cons_of_ne_nil nonempty
    rw [List.nil_append, List.cons_append, Bytes.cut?, ← List.cons_append,
      dropPrefix?_eq_some.mpr rfl]
  | cons c s ih =>
    have later : Sealed s sep := ⟨h.avoids.inside (List.suffix_cons c s).isInfix,
      fun u ending => h.closed u (ending.trans (List.suffix_cons c s))⟩
    have absent : dropPrefix? sep (c :: (s ++ sep ++ rest)) = none := by
      by_contra present
      obtain ⟨tail, found⟩ := Option.ne_none_iff_exists'.mp present
      have start : sep <+: c :: s ++ (sep ++ rest) :=
        ⟨tail, by rw [← dropPrefix?_eq_some.mp found]; simp⟩
      rcases List.prefix_or_prefix_of_prefix start (List.prefix_append _ _) with inside | longer
      · exact h.avoids inside.isInfix
      · exact h.closed _ List.suffix_rfl (List.cons_ne_nil c s) longer
    rw [List.cons_append, List.cons_append, Bytes.cut?, absent, ih later]
    rfl

end Bytes

/-- Text in which every brace has its partner. -/
inductive Balanced : Bytes → Prop where
  | nil : Balanced []
  | byte {c : UInt8} {s : Bytes} (other : c ≠ lbrace ∧ c ≠ rbrace) (after : Balanced s) :
      Balanced (c :: s)
  | nested {s t : Bytes} (inside : Balanced s) (after : Balanced t) :
      Balanced (lbrace :: (s ++ rbrace :: t))

theorem Balanced.append {s t : Bytes} (hs : Balanced s) (ht : Balanced t) : Balanced (s ++ t) := by
  induction hs with
  | nil => exact ht
  | byte other after ih => exact .byte other ih
  | nested inside after ihs iht =>
    rw [List.cons_append, List.append_assoc, List.cons_append]
    exact .nested inside iht

theorem Balanced.items {s : Bytes} (h : Balanced s) (unquoted : ∀ b ∈ s, isCodeQuote b = false) :
    Derives .items s := by
  induction h with
  | nil => exact .none
  | byte other after ih =>
    rw [List.forall_mem_cons] at unquoted
    exact .more (.byte ⟨other.1, other.2, unquoted.1⟩) (ih unquoted.2)
  | nested inside after ihs iht =>
    rw [List.forall_mem_cons, List.forall_mem_append, List.forall_mem_cons] at unquoted
    have first : Derives .item _ := .nested (.block (ihs unquoted.2.1))
    simpa using first.more (iht unquoted.2.2.2)

namespace Delimiters

def opening : Delimiters → Bytes
  | brace => [lbrace]
  | erb => erbOpen

def closing : Delimiters → Bytes
  | brace => [rbrace]
  | erb => erbClose

end Delimiters

/-- A code block of a skeleton. -/
structure Insert where
  isExpression : Bool
  code : Bytes
  deriving DecidableEq, Repr

namespace Insert

def kind (i : Insert) : CodeKind := if i.isExpression then .expression else .statement

/-- What stands in front of the code. -/
def start (i : Insert) : Bytes := if i.isExpression then [equals, space] else [space]

/-- What stands between the delimiters. -/
def inner (i : Insert) : Bytes := i.start ++ (i.code ++ [space])

/-- `\{ code \}` and `\{= code \}`, or `<% code %>` and `<%= code %>`. -/
def written (i : Insert) (d : Delimiters) : Bytes := d.opening ++ i.inner ++ d.closing

/-- The code can be written in either way: it is not blank, its braces are balanced, and it holds
neither quotes nor the end of a block. -/
structure Fits (i : Insert) : Prop where
  filled : i.code.trim ≠ []
  balanced : Balanced i.code
  unquoted : ∀ b ∈ i.code, isCodeQuote b = false
  unclosed : Avoids i.code erbClose

end Insert

/-- Literal text that blocks alternate with. -/
inductive Skeleton where
  | last (chunk : Bytes)
  | block (chunk : Bytes) (insert : Insert) (rest : Skeleton)
  deriving DecidableEq, Repr

/-- Literal text that is the same in both syntaxes. -/
@[mk_iff]
structure LiteralChunk (chunk : Bytes) : Prop where
  braceless : lbrace ∉ chunk
  unopened : Avoids chunk erbOpen
  ordinary : ∀ e ∈ [Markup.RawElement.script, .style], Avoids (Bytes.lower chunk) (lt :: e.name)
  unreserved : Unreserved chunk

instance (chunk : Bytes) : Decidable (LiteralChunk chunk) :=
  decidable_of_iff' _ (literalChunk_iff chunk)

namespace Skeleton

def source (d : Delimiters) : Skeleton → Bytes
  | last chunk => chunk
  | block chunk i rest => chunk ++ (i.written d ++ rest.source d)

def inserts : Skeleton → List Insert
  | last _ => []
  | block _ i rest => i :: rest.inserts

/-- No literal text ends in a backslash before a block. -/
def Fits : Skeleton → Prop
  | last chunk => LiteralChunk chunk
  | block chunk i rest =>
    LiteralChunk chunk ∧ chunk.getLast? ≠ some backslash ∧ i.Fits ∧ rest.Fits

end Skeleton

section Written
variable {i : Insert}

theorem codeOf_inner (d : Delimiters) (i : Insert) :
    d.codeOf i.inner = (i.kind, space :: i.code ++ [space]) := by
  obtain ⟨shows, code⟩ := i
  cases d with
  | brace => cases shows <;> rfl
  | erb =>
    have undashed {c : UInt8} {s : Bytes} (other : c ≠ dash) :
        trimSuffix [dash] (trimPrefix [dash] (c :: s ++ [space])) = c :: s ++ [space] := by
      simp [trimSuffix, dropSuffix?, trimPrefix, dropPrefix?, Ne.symm other,
        show dash ≠ space by decide]
    cases shows with
    | false =>
      show erbCode (space :: code ++ [space]) = _
      rw [erbCode, undashed (by decide)]
      rfl
    | true =>
      show erbCode (equals :: (space :: code) ++ [space]) = _
      rw [erbCode, undashed (by decide)]
      rfl

/-- What stands in front of the code is ASCII without braces, quotes and the end of a block. -/
theorem start_spec (i : Insert) : Sealed i.start erbClose ∧ Balanced i.start ∧
    (∀ b ∈ i.start, isCodeQuote b = false) ∧ ∀ b ∈ i.start, b < 0x80 := by
  have blank : Balanced [space] := .byte (by decide) .nil
  rw [Insert.start]
  split
  · exact ⟨by decide, .byte (by decide) blank, List.all_iff_forall_prop.mp (by decide),
      List.all_iff_forall_prop.mp (by decide)⟩
  · exact ⟨by decide, blank, List.forall_mem_singleton.mpr rfl,
      List.forall_mem_singleton.mpr (by decide)⟩

/-- A quoted value without its mark is passed over, but may end in a backslash. -/
theorem afterQuoted?_unmarked {mark : UInt8} {s : Bytes} (unmarked : mark ∉ s) (escaped : Bool)
    (rest : Bytes) :
    ∃ escaped', afterQuoted? mark escaped (s ++ rest) = afterQuoted? mark escaped' rest := by
  induction s generalizing escaped with
  | nil => exact ⟨escaped, rfl⟩
  | cons c s ih =>
    rw [List.mem_cons, not_or] at unmarked
    rw [List.cons_append, afterQuoted?]
    split_ifs with esc backs same
    · exact ih unmarked.2 false
    · exact ih unmarked.2 true
    · exact absurd same.symm unmarked.1
    · exact ih unmarked.2 false

namespace Insert.Fits

theorem encloses (fits : i.Fits) (d : Delimiters) : d.Encloses i.inner (i.written d) := by
  obtain ⟨ended, balanced, unquoted, -⟩ := start_spec i
  cases d with
  | brace =>
    have whole : Balanced i.inner :=
      balanced.append (fits.balanced.append (.byte (by decide) .nil))
    have codeless : ∀ b ∈ i.inner, isCodeQuote b = false :=
      List.forall_mem_append.mpr
        ⟨unquoted, List.forall_mem_append.mpr ⟨fits.unquoted, List.forall_mem_singleton.mpr rfl⟩⟩
    exact ⟨rfl, fun more => braceSpan?_eq_some_iff.mpr ⟨rfl, whole.items codeless⟩⟩
  | erb =>
    have whole : Sealed i.inner erbClose :=
      ended.append (fits.unclosed.concat (by decide) (by decide)) (by decide)
    refine ⟨rfl, ?_, by simp [inner], fun more => whole.cut? (by decide) more⟩
    cases shows : i.isExpression <;> simp [inner, start, shows] <;> decide

theorem filled_inner (fits : i.Fits) (d : Delimiters) : (d.codeOf i.inner).2.trim ≠ [] := by
  rw [codeOf_inner, trim_spaces fits.filled]
  exact fits.filled

/-- A quoted value passes over a block. -/
theorem afterQuoted?_written (fits : i.Fits) (d : Delimiters) {mark : UInt8}
    (quote : isCodeQuote mark = true) (rest : Bytes) :
    afterQuoted? mark false (i.written d ++ rest) = afterQuoted? mark false rest := by
  have split : i.written d = (d.opening ++ (i.start ++ i.code)) ++ space :: d.closing := by
    simp [written, inner]
  have quiet : ∀ b ∈ d.closing, isQuiet b = true :=
    List.all_iff_forall_prop.mp (by cases d <;> decide)
  have absent : mark ∉ d.opening ++ (i.start ++ i.code) := by
    have opening : ∀ b ∈ d.opening, isCodeQuote b = false :=
      List.all_iff_forall_prop.mp (by cases d <;> decide)
    have unquoted := List.forall_mem_append.mpr ⟨opening,
      List.forall_mem_append.mpr ⟨(start_spec i).2.2.1, fits.unquoted⟩⟩
    exact fun mem => by simp [unquoted mark mem] at quote
  have blank : space ≠ mark := by
    rintro rfl
    exact absurd quote (by decide)
  -- a backslash at the end of the code takes the space behind it
  have spaced (escaped : Bool) (t : Bytes) :
      afterQuoted? mark escaped (space :: t) = afterQuoted? mark false t := by
    rw [afterQuoted?, if_neg (by decide : space ≠ backslash), if_neg blank, ite_self]
  obtain ⟨escaped, passed⟩ := afterQuoted?_unmarked absent false (space :: d.closing ++ rest)
  rw [split, List.append_assoc, passed, List.cons_append, spaced, afterQuoted?_quiet quote quiet]

end Insert.Fits

end Written

/-- One text with its blocks written between braces and between angle brackets and percent signs.
Nothing else in it is a delimiter or opens a script or style element. -/
inductive Paired : Bytes → Bytes → Prop where
  | nil : Paired [] []
  | byte {c : UInt8} {s s' : Bytes} (plain : ¬Delimiters.brace.Starts .markup c s)
      (plain' : ¬Delimiters.erb.Starts .markup c s')
      (ordinary : c = lt → BraceContext.opened? s = none) (after : Paired s s') :
      Paired (c :: s) (c :: s')
  | block {i : Insert} {s s' : Bytes} (fits : i.Fits) (after : Paired s s') :
      Paired (i.written .brace ++ s) (i.written .erb ++ s')

namespace Paired
variable {s s' : Bytes}

theorem afterQuoted? {mark : UInt8} (quote : isCodeQuote mark = true) (h : Paired s s')
    (escaped : Bool) (apart : escaped = true → s.head? ≠ some lbrace) :
    Option.Rel Paired (DomTemplate.afterQuoted? mark escaped s)
      (DomTemplate.afterQuoted? mark escaped s') := by
  induction h generalizing escaped with
  | nil => cases escaped <;> exact .none
  | @byte c s s' plain plain' ordinary after ih =>
    rw [DomTemplate.afterQuoted?, DomTemplate.afterQuoted?]
    split_ifs with esc backs same
    · exact ih false (by simp)
    · exact ih true fun _ first => plain (.inl ⟨backs, first⟩)
    · exact .some after
    · exact ih false (by simp)
  | @block i s s' fits after ih =>
    cases escaped with
    | true => exact absurd rfl (apart rfl)
    | false =>
      rw [fits.afterQuoted?_written _ quote, fits.afterQuoted?_written _ quote]
      exact ih false (by simp)

/-- The search for the end of a tag finds the same in both syntaxes. -/
theorem closesTag_eq (h : Paired s s') (afterBackslash : Bool)
    (apart : afterBackslash = true → s.head? ≠ some lbrace) (afterEquals : Bool) :
    closesTag .brace afterBackslash afterEquals s =
      closesTag .erb afterBackslash afterEquals s' := by
  have step {b : Bool} {s s' : Bytes} (h : Paired s s' ∧ (b = true → s.head? ≠ some lbrace)) :
      SameStep .brace .erb (fun b s s' => Paired s s' ∧ (b = true → s.head? ≠ some lbrace))
        b s s' := by
    obtain ⟨paired, apart⟩ := h
    cases paired with
    | nil => exact .nil
    | @block i s s' fits after =>
      have unescaped : b = false := Bool.eq_false_iff.mpr fun backs => apart backs rfl
      exact .block (afterBlock?_block (fits.encloses .brace) (fun _ => unescaped) s)
        (afterBlock?_block (fits.encloses .erb) (by simp) s') ⟨after, by simp⟩
    | @byte c s s' plain plain' ordinary after =>
      have noBlock : Delimiters.brace.afterBlock? b (c :: s) = none := by
        rw [Delimiters.afterBlock?, if_neg]
        exact fun opens => plain (.inr ⟨opens.1, .inl rfl⟩)
      have noBlock' : Delimiters.erb.afterBlock? b (c :: s') = none :=
        afterBlock?_erb fun opens => absurd opens plain'
      refine .byte ?_ (fun quote => ?_) ⟨after, fun backs first => ?_⟩
      · rw [noBlock, noBlock']
        exact .none
      · simpa using after.afterQuoted? quote false (by simp)
      · exact plain (.inl ⟨beq_iff_eq.mp backs, first⟩)
  exact closesTag_inStep step ⟨h, apart⟩ afterEquals

end Paired

/-- Pieces that are shown alike. -/
inductive Piece.Twin : Piece → Piece → Prop where
  | byte (c : UInt8) : Twin (.byte c) (.byte c)
  | block {b b' : Block} (number : b'.number = b.number) (kind : b'.kind = b.kind)
      (source : b'.source = b.source) (lead : b'.lead = b.lead) : Twin (.block b) (.block b')

theorem Piece.Twin.shown {p p' : Piece} (h : p.Twin p') : p'.shown = p.shown := by
  cases h with
  | byte c => rfl
  | block number kind source lead =>
    rw [Piece.shown, Piece.shown, Block.shown, Block.shown, lead, number]

theorem Piece.Twin.push {p p' : Piece} (h : p.Twin p') {state state' : MaskState}
    (number : state'.number = state.number) (before : state'.before = state.before) :
    (state'.push p').number = (state.push p).number ∧
      (state'.push p').before = (state.push p).before := by
  refine ⟨?_, by simp only [MaskState.push, h.shown, before]⟩
  cases h <;> simp only [MaskState.push, number]

theorem Paired.cut {s s' : Bytes} (h : Paired s s') (state state' : MaskState)
    (number : state'.number = state.number) (before : state'.before = state.before) :
    ∃ m m', Cut .brace state .markup s m ∧ Cut .erb state' .markup s' m' ∧
      List.Forall₂ Piece.Twin m m' := by
  induction h generalizing state state' with
  | nil => exact ⟨[], [], .nil, .nil, .nil⟩
  | @byte c s s' plain plain' ordinary after ih =>
    have twin := Piece.Twin.byte c
    obtain ⟨number, before⟩ := twin.push number before
    obtain ⟨m, m', cut, cut', twins⟩ := ih _ _ number before
    have stays : BraceContext.markup.next c s = .markup := by
      rw [BraceContext.next]
      split
      · rename_i angle
        rw [ordinary angle]
        rfl
      · rfl
    refine ⟨_, _, .byte plain ?_, .byte plain' cut'.any_context, .cons twin twins⟩
    rw [stays]
    exact cut
  | @block i s s' fits after ih =>
    have twin : Piece.Twin (.block (state.block .brace i.inner (i.written .brace) s))
        (.block (state'.block .erb i.inner (i.written .erb) s')) := by
      refine .block number ?_ ?_ ?_
      · simp only [MaskState.block, codeOf_inner]
      · simp only [MaskState.block, codeOf_inner]
      · simp only [MaskState.block, before, after.closesTag_eq false (by simp) false]
    obtain ⟨number, before⟩ := twin.push number before
    obtain ⟨m, m', cut, cut', twins⟩ := ih _ _ number before
    exact ⟨_, _, .block (fits.encloses .brace) (.inl (fits.filled_inner .brace))
        (by simp [BraceContext.isInside]) cut,
      .block (fits.encloses .erb) (.inl (fits.filled_inner .erb)) (by simp) cut', .cons twin twins⟩

section Twins
variable {m m' : Masked}

theorem text_twins (h : List.Forall₂ Piece.Twin m m') : m'.text = m.text := by
  induction h with
  | nil => rfl
  | cons twin twins ih =>
    rw [Masked.text, Masked.text, List.flatMap_cons, List.flatMap_cons, twin.shown]
    exact congrArg _ ih

/-- The code without its place. -/
def Code.unplaced (block : Code) : Code := { block with pos := {} }

theorem alikeMarks_twins (h : List.Forall₂ Piece.Twin m m') (start start' : Nat) :
    AlikeMarks Code.unplaced (m.blocksFrom start) (m'.blocksFrom start') := by
  induction h generalizing start start' with
  | nil => exact .nil
  | cons twin twins ih =>
    cases twin with
    | byte c => exact ih _ _
    | block number kind source lead =>
      refine .cons ⟨fun pos pos' => ?_, lead⟩ (ih _ _)
      simp only [Code.unplaced, kind, source]

end Twins

namespace LiteralChunk
variable {c : UInt8} {chunk t t' : Bytes}

theorem tail (h : LiteralChunk (c :: chunk)) : LiteralChunk chunk where
  braceless := List.not_mem_of_not_mem_cons h.braceless
  unopened := h.unopened.inside (List.suffix_cons c chunk).isInfix
  ordinary e mem := (h.ordinary e mem).inside (List.suffix_cons (Ascii.lower c) _).isInfix
  unreserved sub mem := (h.unreserved sub mem).inside (List.suffix_cons c chunk).isInfix

/-- No script or style element starts in literal text that is followed by a brace at most. -/
theorem opened? (h : LiteralChunk (lt :: chunk)) (ends : t.takeWhile Markup.isLiteral = []) :
    BraceContext.opened? (chunk ++ t) = none := by
  have literal : (chunk ++ t).takeWhile Markup.isLiteral = chunk := by
    have kept : ∀ b ∈ chunk, Markup.isLiteral b = true := fun b mem =>
      bne_iff_ne.mpr fun same => h.braceless (List.mem_cons_of_mem _ (same ▸ mem))
    rw [List.takeWhile_append_of_pos kept, ends, List.append_nil]
  have absent : ∀ e ∈ [Markup.RawElement.script, .style],
      Markup.startsName e.name (chunk ++ t) = false := by
    intro e mem
    have within : (Bytes.lower e.name).all Markup.isLiteral = true := by cases e <;> rfl
    have small : Bytes.lower e.name = e.name := e.name_spec.2.1
    rw [← Markup.startsName_takeWhile Markup.isLiteral_lower Markup.endsName_of_literal within,
      literal, Bool.eq_false_iff]
    intro named
    rw [Markup.startsName, Bool.and_eq_true] at named
    have front := List.isPrefixOf_iff_prefix.mp named.1
    rw [small] at front
    exact h.ordinary e mem (List.cons_prefix_cons.mpr ⟨rfl, front⟩).isInfix
  simpa [BraceContext.opened?] using absent

theorem paired (h : LiteralChunk chunk) (after : Paired t t')
    (ends : t.takeWhile Markup.isLiteral = []) (ends' : t'.head? ≠ some percent)
    (unescaped : t.head? = some lbrace → chunk.getLast? ≠ some backslash) :
    Paired (chunk ++ t) (chunk ++ t') := by
  induction chunk with
  | nil => exact after
  | cons c chunk ih =>
    refine .byte ?_ ?_ (fun angle => opened? (angle ▸ h) ends) (ih h.tail fun first last => ?_)
    · rintro (⟨rfl, first⟩ | ⟨rfl, -⟩)
      · cases chunk with
        | nil => exact unescaped first rfl
        | cons b chunk =>
          cases first
          exact h.braceless (by simp)
      · exact h.braceless List.mem_cons_self
    · rintro ⟨rfl, first⟩
      cases chunk with
      | nil => exact ends' first
      | cons b chunk =>
        cases first
        exact h.unopened (List.prefix_append erbOpen chunk).isInfix
    · refine unescaped first ?_
      cases chunk with
      | nil => cases last
      | cons b chunk => rw [List.getLast?_cons_cons, last]

end LiteralChunk

namespace Skeleton
variable {s : Skeleton}

theorem paired (fits : s.Fits) : Paired (s.source .brace) (s.source .erb) := by
  induction s with
  | last chunk =>
    have alone := LiteralChunk.paired fits .nil rfl (by simp) (by simp)
    rwa [List.append_nil] at alone
  | block chunk i rest ih =>
    obtain ⟨literal, unescaped, code, later⟩ := fits
    refine literal.paired (.block code (ih later)) rfl ?_ fun _ => unescaped
    show some lt ≠ some percent
    decide

theorem unreserved_source (fits : s.Fits) (d : Delimiters) :
    Unreserved (s.source d) ↔ ∀ i ∈ s.inserts, Unreserved i.code := by
  induction s with
  | last chunk => simp [source, inserts, fits.unreserved]
  | block chunk i rest ih =>
    obtain ⟨literal, -, -, later⟩ := fits
    rw [inserts, List.forall_mem_cons, ← ih later]
    constructor
    · intro whole
      refine ⟨fun sub mem => (whole sub mem).inside ?_, fun sub mem => (whole sub mem).inside ?_⟩
      · exact ⟨chunk ++ (d.opening ++ i.start), space :: d.closing ++ rest.source d,
          by simp [source, Insert.written, Insert.inner]⟩
      · exact ((List.suffix_append _ _).trans (List.suffix_append _ _)).isInfix
    · rintro ⟨code, rest⟩ sub mem
      have nonempty := reserved_ne_nil sub mem
      have opening : ∀ b ∈ d.opening, b < 0x80 :=
        List.all_iff_forall_prop.mp (by cases d <;> decide)
      have closing : ∀ b ∈ d.closing, b < 0x80 :=
        List.all_iff_forall_prop.mp (by cases d <;> decide)
      have spaced := (code sub mem).concat (low_not_mem mem (by decide : space < 0x80)) nonempty
      have inner : Sealed i.inner sub :=
        (sealed_low mem (start_spec i).2.2.2).append spaced nonempty
      have written : Sealed (i.written d) sub :=
        ((sealed_low mem opening).append inner nonempty).append (sealed_low mem closing) nonempty
      refine (literal.unreserved sub mem).append (written.append_avoids (rest sub mem) nonempty)
        nonempty fun b first => ?_
      cases d <;> cases first <;> exact low_not_mem mem (by decide)

end Skeleton

theorem reservedOffset?_eq_none {src : Bytes} : reservedOffset? src = none ↔ Unreserved src := by
  have found {sub : Bytes} (mem : sub ∈ reserved) :
      Bytes.cut? sub src = none ↔ Avoids src sub := by
    refine ⟨?_, cut?_of_avoids (reserved_ne_nil sub mem)⟩
    rintro absent ⟨before, after, whole⟩
    refine Bytes.cut?_eq_none absent after ⟨before, ?_⟩
    rw [← List.append_assoc, whole]
  have opened := found (by decide : markOpen ∈ reserved)
  have closed := found (by decide : markClose ∈ reserved)
  simp only [Unreserved, reserved, List.forall_mem_cons, ← opened, ← closed, reservedOffset?]
  cases Bytes.cut? markOpen src <;> cases Bytes.cut? markClose src <;> simp

/-- A skeleton is read to the same document in both syntaxes, up to places and the texts of
comments, or in neither. -/
theorem Document.parse_skeleton {s : Skeleton} (fits : s.Fits) :
    Agree (Document.seen Code.unplaced) (Document.parse .brace (s.source .brace))
      (Document.parse .erb (s.source .erb)) := by
  have clean (d : Delimiters) :
      reservedOffset? (s.source d) = none ↔ ∀ i ∈ s.inserts, Unreserved i.code := by
    rw [reservedOffset?_eq_none, Skeleton.unreserved_source fits]
  by_cases unreserved : ∀ i ∈ s.inserts, Unreserved i.code
  · obtain ⟨m, m', cut, cut', twins⟩ := (Skeleton.paired fits).cut {} {} rfl rfl
    have nodes := @MaskedSource.nodes_seen _ ⟨s.source .brace, m⟩ ⟨s.source .erb, m'⟩
      (alikeMarks_twins twins 0 0) 0 0 (Markup.tokens m.text)
    simp only [Document.parse, (clean _).mpr unreserved, Masked.ofSource_ok.mpr cut,
      Masked.ofSource_ok.mpr cut', text_twins twins]
    exact nodes.map fun ns ns' same => by rw [Document.seen, Document.seen, same]
  · have refused (d : Delimiters) : ∃ e, Document.parse d (s.source d) = .error e := by
      obtain ⟨off, reserved⟩ :=
        Option.ne_none_iff_exists'.mp fun none => unreserved ((clean d).mp none)
      simp only [Document.parse, reserved]
      exact ⟨_, rfl⟩
    obtain ⟨e, failed⟩ := refused .brace
    obtain ⟨e', failed'⟩ := refused .erb
    rw [failed, failed']
    exact .error e e'

/-- A tag with code for its name, in a quoted value and in a comment after it. -/
def coveredSkeleton : Skeleton :=
  .block (utf8 "<") ⟨true, utf8 "t"⟩ <|
  .block (utf8 " a=\"") ⟨true, utf8 "\x7ba<b\x7d\\"⟩ <|
  .block (utf8 "\"><!--") ⟨false, utf8 "-x>"⟩ <|
  .block (utf8 "--></") ⟨true, utf8 "t"⟩ <|
  .last (utf8 ">")

theorem Document.parse_skeleton_covered :
    coveredSkeleton.Fits ∧ ∃ doc doc',
      Document.parse .brace (coveredSkeleton.source .brace) = .ok doc ∧
      Document.parse .erb (coveredSkeleton.source .erb) = .ok doc' ∧
      doc.seen Code.unplaced = doc'.seen Code.unplaced := by
  have name : Insert.Fits ⟨true, utf8 "t"⟩ :=
    ⟨by decide +kernel, .byte (by decide) .nil, by decide +kernel, by decide⟩
  have value : Insert.Fits ⟨true, utf8 "\x7ba<b\x7d\\"⟩ :=
    ⟨by decide +kernel, .nested (s := utf8 "a<b") (.byte (by decide) (.byte (by decide)
      (.byte (by decide) .nil))) (.byte (by decide) .nil), by decide +kernel, by decide⟩
  have comment : Insert.Fits ⟨false, utf8 "-x>"⟩ :=
    ⟨by decide +kernel, .byte (by decide) (.byte (by decide) (.byte (by decide) .nil)),
      by decide +kernel, by decide⟩
  have fits : coveredSkeleton.Fits :=
    ⟨by decide +kernel, by decide, name, by decide +kernel, by decide, value, by decide +kernel,
      by decide, comment, by decide +kernel, by decide, name, show LiteralChunk _ by decide +kernel⟩
  have accepted :
      (Document.parse .brace (coveredSkeleton.source .brace)).toOption.isSome = true := by
    decide +kernel
  have agree := Document.parse_skeleton fits
  cases read : Document.parse .brace (coveredSkeleton.source .brace) with
  | error e => rw [read] at accepted; cases accepted
  | ok doc =>
    cases read' : Document.parse .erb (coveredSkeleton.source .erb) with
    | error e => rw [read, read'] at agree; cases agree
    | ok doc' =>
      rw [read, read'] at agree
      exact ⟨fits, doc, doc', rfl, rfl, Option.some.inj agree⟩

end DomTemplate
