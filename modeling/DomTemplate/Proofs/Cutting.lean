import DomTemplate.Template.Mask
import Mathlib.Data.List.Infix

/-! How a source is cut into pieces, as one judgment for both kinds of delimiters. A cut says
of each piece what it is made of and what must not start in front of it; the scans between
braces and between angle brackets and percent signs find exactly the cuts. Whatever holds of
all masked sources is then an induction on the cut. -/

namespace DomTemplate
open Ascii

namespace Bytes

/-- A property of bytes that can be decided is decided for each of them. -/
theorem forall_byte {p : UInt8 → Prop} (h : ∀ n : Fin 256, p (UInt8.ofNat n)) (b : UInt8) : p b := by
  have at_value := h ⟨b.toNat, b.toNat_lt⟩
  simpa using at_value

theorem dropPrefix?_eq_some {p s rest : Bytes} : dropPrefix? p s = some rest ↔ s = p ++ rest := by
  induction p generalizing s with
  | nil => simp [dropPrefix?, eq_comm]
  | cons a p ih =>
    cases s with
    | nil => simp [dropPrefix?]
    | cons b s =>
      rw [dropPrefix?, List.cons_append, List.cons.injEq]
      by_cases same : a = b
      · rw [if_pos same, ih]
        simp [same]
      · simp [same, Ne.symm same]

theorem dropSuffix?_eq_some {t s kept : Bytes} :
    dropSuffix? t s = some kept ↔ s = kept ++ t := by
  rw [dropSuffix?, Option.map_eq_some_iff]
  constructor
  · rintro ⟨rest, found, rfl⟩
    have split := congrArg List.reverse (dropPrefix?_eq_some.mp found)
    simpa using split
  · rintro rfl
    exact ⟨kept.reverse, dropPrefix?_eq_some.mpr (by simp), by simp⟩

theorem trimSuffix_starts (t s : Bytes) : trimSuffix t s <+: s := by
  rw [trimSuffix]
  cases dropped : dropSuffix? t s with
  | none => exact List.prefix_rfl
  | some kept =>
    rw [dropSuffix?_eq_some.mp dropped]
    exact List.prefix_append _ _

/-- The first separator ends the text before it, whatever follows. -/
theorem cut?_spec {sep s before rest : Bytes} (nonempty : sep ≠ [])
    (h : cut? sep s = some (before, rest)) :
    s = before ++ sep ++ rest ∧ ∀ more, cut? sep (before ++ sep ++ more) = some (before, more) := by
  induction s generalizing before rest with
  | nil => cases sep <;> simp_all [cut?]
  | cons c cs ih =>
    rw [cut?] at h
    split at h
    · rename_i tail found
      cases h
      refine ⟨dropPrefix?_eq_some.mp found, fun more => ?_⟩
      obtain ⟨a, as, rfl⟩ := List.exists_cons_of_ne_nil nonempty
      rw [List.nil_append, List.cons_append, cut?, ← List.cons_append,
        dropPrefix?_eq_some.mpr rfl]
    · rename_i absent
      obtain ⟨⟨b, r⟩, found, same⟩ := Option.map_eq_some_iff.mp h
      cases same
      obtain ⟨split, later⟩ := ih found
      refine ⟨by rw [split]; simp, fun more => ?_⟩
      have still : dropPrefix? sep (c :: (b ++ sep ++ more)) = none := by
        by_contra present
        obtain ⟨t, ht⟩ := Option.ne_none_iff_exists'.mp present
        have early : sep <+: c :: (b ++ sep) := by
          refine List.prefix_of_prefix_length_le ⟨t, (dropPrefix?_eq_some.mp ht).symm⟩
            ⟨more, by simp⟩ ?_
          simp only [List.length_cons, List.length_append]
          omega
        have found : sep <+: c :: cs := early.trans ⟨rest, by rw [split]; simp⟩
        obtain ⟨u, hu⟩ := found
        rw [dropPrefix?_eq_some.mpr hu.symm] at absent
        cases absent
      rw [List.cons_append, List.cons_append, cut?, still, later]
      rfl

end Bytes

/-- The brace that ends a block is the first that does, whatever follows. -/
theorem braceSpan?_spec {state : CodeState} {depth : Nat} {s text rest : Bytes}
    (h : braceSpan? state depth s = some (text, rest)) :
    s = text ++ rbrace :: rest ∧
      ∀ more, braceSpan? state depth (text ++ rbrace :: more) = some (text, more) := by
  induction s generalizing state depth text rest with
  | nil => cases h
  | cons c cs ih =>
    rw [braceSpan?] at h
    split at h
    · rename_i ends
      cases h
      refine ⟨by rw [ends.2.1]; rfl, fun more => ?_⟩
      rw [List.nil_append, braceSpan?, if_pos ⟨ends.1, rfl, ends.2.2⟩]
    · rename_i goesOn
      obtain ⟨⟨t, r⟩, found, same⟩ := Option.map_eq_some_iff.mp h
      cases same
      obtain ⟨split, later⟩ := ih found
      refine ⟨by rw [split]; rfl, fun more => ?_⟩
      rw [List.cons_append, braceSpan?, if_neg goesOn, later]
      rfl

namespace Delimiters

/-- How a delimiter itself is written, and what it shows. -/
def escape : Delimiters → Bytes × Bytes
  | brace => ([backslash, lbrace], [lbrace])
  | erb => (erbEscape, erbOpen)

/-- An escape or a block starts at `c`, which is followed by `rest`. -/
def Starts (d : Delimiters) (context : BraceContext) (c : UInt8) (rest : Bytes) : Prop :=
  match d with
  | brace => (c = backslash ∧ rest.head? = some lbrace) ∨
      (c = lbrace ∧ (context.isInside = false ∨ rest.head? = some equals))
  | erb => c = lt ∧ rest.head? = some percent

/-- `written` is a block that holds the given code between its delimiters. -/
def Encloses (d : Delimiters) (inner written : Bytes) : Prop :=
  match d with
  | brace => written = lbrace :: inner ++ [rbrace] ∧
      ∀ more, braceSpan? .code 0 (inner ++ rbrace :: more) = some (inner, more)
  | erb => written = erbOpen ++ inner ++ erbClose ∧ inner.head? ≠ some percent ∧ inner ≠ [] ∧
      ∀ more, Bytes.cut? erbClose (inner ++ erbClose ++ more) = some (inner, more)

def codeOf : Delimiters → Bytes → CodeKind × Bytes
  | brace => braceCode
  | erb => erbCode

end Delimiters

theorem Delimiters.Encloses.ne_nil {d : Delimiters} {inner written : Bytes}
    (h : d.Encloses inner written) : ∃ c cs, written = c :: cs := by
  cases d with
  | brace => exact ⟨_, _, h.1⟩
  | erb => exact ⟨_, _, h.1⟩

/-- The piece of a block that holds `inner` and is followed by `rest`. -/
def MaskState.block (state : MaskState) (d : Delimiters) (inner written rest : Bytes) : Block where
  number := state.number
  kind := (d.codeOf inner).1
  source := (d.codeOf inner).2.trim
  written := written
  lead := endsInTagOpen state.before && closesTag d false false rest

inductive Cut (d : Delimiters) : MaskState → BraceContext → Bytes → Masked → Prop where
  | nil {state : MaskState} {context : BraceContext} : Cut d state context [] []
  | escape {state : MaskState} {context : BraceContext} {rest : Bytes} {m : Masked}
      (after : Cut d (state.push (.escape d.escape.1 d.escape.2)) context rest m) :
      Cut d state context (d.escape.1 ++ rest) (.escape d.escape.1 d.escape.2 :: m)
  | block {state : MaskState} {context : BraceContext} {inner written rest : Bytes} {m : Masked}
      (encloses : d.Encloses inner written)
      (nonempty : (d.codeOf inner).2.trim ≠ [] ∨ (d.codeOf inner).1 = .comment)
      (allowed : d = .brace → context.isInside = true → (d.codeOf inner).1 = .expression)
      (after : Cut d (state.push (.block (state.block d inner written rest))) context rest m) :
      Cut d state context (written ++ rest) (.block (state.block d inner written rest) :: m)
  | byte {state : MaskState} {context : BraceContext} {c : UInt8} {rest : Bytes} {m : Masked}
      (plain : ¬d.Starts context c rest)
      (after : Cut d (state.push (.byte c)) (context.next c rest) rest m) :
      Cut d state context (c :: rest) (.byte c :: m)

theorem map_cons_ok {p : Piece} {r : Except MaskFault Masked} {m : Masked}
    (h : r.map (p :: ·) = .ok m) : ∃ rest, r = .ok rest ∧ m = p :: rest := by
  cases r with
  | error e => cases h
  | ok rest => cases h; exact ⟨rest, rfl, rfl⟩

theorem blockPiece_ok {state : MaskState} {d : Delimiters} {inner written rest : Bytes} {p : Piece} :
    state.blockPiece d (d.codeOf inner) written rest = .ok p ↔
      ((d.codeOf inner).2.trim ≠ [] ∨ (d.codeOf inner).1 = .comment) ∧
        p = .block (state.block d inner written rest) := by
  rw [MaskState.blockPiece]
  split
  · rename_i empty
    simp only [Bool.and_eq_true, List.isEmpty_iff, bne_iff_ne] at empty
    simp [empty]
  · rename_i filled
    simp only [Bool.and_eq_true, List.isEmpty_iff, bne_iff_ne, not_and, not_not] at filled
    rw [Except.ok.injEq]
    constructor
    · rintro rfl
      exact ⟨by tauto, rfl⟩
    · rintro ⟨-, rfl⟩
      rfl

theorem braceCode_expression {inner : Bytes} :
    (braceCode inner).1 = .expression ↔ inner.head? = some equals := by
  cases inner with
  | nil => simp [braceCode]
  | cons c cs =>
    by_cases same : c = equals <;> simp [braceCode, same]

theorem cut_of_maskBrace {state : MaskState} {context : BraceContext} {s : Bytes} {m : Masked}
    (h : maskBrace state context s = .ok m) : Cut .brace state context s m := by
  fun_induction maskBrace state context s generalizing m with
  | case1 => cases h; exact .nil
  | case2 state context c cs escape p =>
    rename_i ih
    obtain ⟨rest, ok, rfl⟩ := map_cons_ok h
    obtain ⟨rfl, head⟩ := escape
    obtain ⟨tail, rfl⟩ : ∃ tail, cs = lbrace :: tail := List.head?_eq_some_iff.mp head
    exact .escape (d := .brace) (ih ok)
  | case3 state context c cs noEscape opens unterminated => cases h
  | case4 state context c cs noEscape opens inner rest span shorter fault failed => cases h
  | case5 state context c cs noEscape opens inner rest span shorter p made ih =>
    obtain ⟨later, ok, rfl⟩ := map_cons_ok h
    obtain ⟨split, ends⟩ := braceSpan?_spec span
    obtain ⟨filled, rfl⟩ := (blockPiece_ok (d := .brace)).mp made
    obtain ⟨rfl, place⟩ := opens
    have allowed : context.isInside = true → (braceCode inner).1 = .expression := by
      intro inside
      rw [braceCode_expression]
      have first : cs.head? = some equals := by simpa [inside] using place
      cases inner with
      | nil =>
        rw [split, List.nil_append, List.head?_cons, Option.some.injEq] at first
        exact absurd first (by decide)
      | cons a as => rw [split] at first; exact first
    have whole : lbrace :: cs = (lbrace :: inner ++ [rbrace]) ++ rest := by rw [split]; simp
    rw [whole]
    exact .block (d := .brace) ⟨rfl, ends⟩ filled (fun _ => allowed) (ih ok)
  | case6 state context c cs noEscape noBlock p =>
    rename_i ih
    obtain ⟨rest, ok, rfl⟩ := map_cons_ok h
    refine .byte (d := .brace) ?_ (ih ok)
    rintro (escape | block)
    · exact noEscape escape
    · exact noBlock ⟨block.1, by simpa using block.2⟩

theorem maskBrace_of_cut {state : MaskState} {context : BraceContext} {s : Bytes} {m : Masked}
    (h : Cut .brace state context s m) : maskBrace state context s = .ok m := by
  induction h with
  | nil => rw [maskBrace]
  | @escape state context rest m after ih =>
    simp only [Delimiters.escape, List.cons_append, List.nil_append] at ih ⊢
    rw [maskBrace, if_pos ⟨rfl, rfl⟩, List.drop_one, List.tail_cons]
    simp only [ih]
    rfl
  | @block state context inner written rest m encloses nonempty allowed after ih =>
    obtain ⟨rfl, ends⟩ := encloses
    have opens : context.isInside = false ∨ (inner ++ rbrace :: rest).head? = some equals := by
      cases inside : context.isInside with
      | false => exact .inl rfl
      | true =>
        obtain ⟨tail, rfl⟩ := List.head?_eq_some_iff.mp
          (braceCode_expression.mp (allowed rfl inside))
        exact .inr rfl
    have made : state.blockPiece .brace (braceCode inner) (lbrace :: inner ++ [rbrace]) rest =
        .ok (.block (state.block .brace inner (lbrace :: inner ++ [rbrace]) rest)) :=
      blockPiece_ok.mpr ⟨nonempty, rfl⟩
    have whole : lbrace :: inner ++ [rbrace] ++ rest = lbrace :: (inner ++ rbrace :: rest) := by simp
    rw [whole, maskBrace, if_neg fun escape => absurd escape.1 (by decide),
      if_pos ⟨rfl, by simpa using opens⟩]
    split
    · rename_i none
      rw [ends] at none
      cases none
    · rename_i found
      rw [ends] at found
      cases found
      rw [made]
      simp only [ih]
      rfl
  | @byte state context c rest m plain after ih =>
    simp only [Delimiters.Starts, not_or] at plain
    rw [maskBrace, if_neg plain.1, if_neg (by simpa using plain.2)]
    simp only [ih]
    rfl

theorem isPrefixOf_erbOpen {c : UInt8} {cs : Bytes} :
    erbOpen.isPrefixOf (c :: cs) = true ↔ c = lt ∧ cs.head? = some percent := by
  have letters : erbOpen = [lt, percent] := by decide
  cases cs <;> grind [List.isPrefixOf]

theorem isPrefixOf_erbEscape {c : UInt8} {cs : Bytes} :
    erbEscape.isPrefixOf (c :: cs) = true ↔
      c = lt ∧ cs.head? = some percent ∧ cs.tail.head? = some percent := by
  have letters : erbEscape = [lt, percent, percent] := by decide
  rcases cs with _ | ⟨a, _ | ⟨b, cs⟩⟩ <;> grind [List.isPrefixOf]

theorem cut_of_maskErb {state : MaskState} {context : BraceContext} {s : Bytes} {m : Masked}
    (h : maskErb state s = .ok m) : Cut .erb state context s m := by
  fun_induction maskErb state s generalizing context m with
  | case1 => cases h; exact .nil
  | case2 state c cs escape p =>
    rename_i ih
    obtain ⟨rest, ok, rfl⟩ := map_cons_ok h
    obtain ⟨rfl, second, third⟩ := isPrefixOf_erbEscape.mp escape
    obtain ⟨tail, rfl⟩ := List.head?_eq_some_iff.mp second
    obtain ⟨tail, rfl⟩ := List.head?_eq_some_iff.mp third
    exact .escape (d := .erb) (ih ok)
  | case3 state c cs noEscape opens unterminated => cases h
  | case4 state c cs noEscape opens inner rest span shorter fault failed => cases h
  | case5 state c cs noEscape opens inner rest span shorter p made ih =>
    obtain ⟨later, ok, rfl⟩ := map_cons_ok h
    obtain ⟨split, ends⟩ := Bytes.cut?_spec (by decide) span
    obtain ⟨filled, rfl⟩ := (blockPiece_ok (d := .erb)).mp made
    obtain ⟨rfl, second⟩ := isPrefixOf_erbOpen.mp opens
    obtain ⟨tail, rfl⟩ := List.head?_eq_some_iff.mp second
    have third : tail.head? ≠ some percent := fun same =>
      noEscape (isPrefixOf_erbEscape.mpr ⟨rfl, rfl, same⟩)
    rw [List.drop_one, List.tail_cons] at split
    have code : inner.head? ≠ some percent ∧ inner ≠ [] := by
      cases inner with
      | nil => rw [split] at third; exact absurd rfl third
      | cons a as => rw [split] at third; exact ⟨third, List.cons_ne_nil _ _⟩
    have whole : lt :: percent :: tail = erbOpen ++ inner ++ erbClose ++ rest := by
      rw [split, List.append_assoc erbOpen, List.append_assoc erbOpen]
      rfl
    rw [whole]
    exact .block (d := .erb) ⟨rfl, code.1, code.2, ends⟩ filled nofun (ih ok)
  | case6 state c cs noEscape noBlock p =>
    rename_i ih
    obtain ⟨rest, ok, rfl⟩ := map_cons_ok h
    refine .byte (d := .erb) ?_ (ih ok)
    exact fun starts => noBlock (isPrefixOf_erbOpen.mpr starts)

theorem maskErb_of_cut {state : MaskState} {context : BraceContext} {s : Bytes} {m : Masked}
    (h : Cut .erb state context s m) : maskErb state s = .ok m := by
  induction h with
  | nil => rw [maskErb]
  | @escape state context rest m after ih =>
    have whole : Delimiters.erb.escape.1 ++ rest = lt :: percent :: percent :: rest := rfl
    rw [whole, maskErb, if_pos (isPrefixOf_erbEscape.mpr ⟨rfl, rfl, rfl⟩)]
    simp only [Delimiters.escape] at ih ⊢
    simp only [List.drop_succ_cons, List.drop_zero, ih]
    rfl
  | @block state context inner written rest m encloses nonempty allowed after ih =>
    obtain ⟨rfl, unescaped, code, ends⟩ := encloses
    have made : state.blockPiece .erb (erbCode inner) (erbOpen ++ inner ++ erbClose) rest =
        .ok (.block (state.block .erb inner (erbOpen ++ inner ++ erbClose) rest)) :=
      blockPiece_ok.mpr ⟨nonempty, rfl⟩
    have whole : erbOpen ++ inner ++ erbClose ++ rest =
        lt :: percent :: (inner ++ erbClose ++ rest) := by
      rw [List.append_assoc erbOpen, List.append_assoc erbOpen]
      rfl
    have noEscape : ¬erbEscape.isPrefixOf (lt :: percent :: (inner ++ erbClose ++ rest)) = true := by
      intro escape
      obtain ⟨a, as, rfl⟩ := List.exists_cons_of_ne_nil code
      exact unescaped (isPrefixOf_erbEscape.mp escape).2.2
    rw [whole, maskErb, if_neg noEscape, if_pos (isPrefixOf_erbOpen.mpr ⟨rfl, rfl⟩)]
    split
    · rename_i none
      rw [List.drop_one, List.tail_cons, ends] at none
      cases none
    · rename_i found
      rw [List.drop_one, List.tail_cons, ends] at found
      cases found
      rw [made]
      simp only [ih]
      rfl
  | @byte state context c rest m plain after ih =>
    have noBlock : ¬erbOpen.isPrefixOf (c :: rest) = true := fun opens =>
      plain (isPrefixOf_erbOpen.mp opens)
    have noEscape : ¬erbEscape.isPrefixOf (c :: rest) = true := fun escape =>
      have starts := isPrefixOf_erbEscape.mp escape
      plain ⟨starts.1, starts.2.1⟩
    rw [maskErb, if_neg noEscape, if_neg noBlock]
    simp only [ih]
    rfl

theorem Masked.ofSource_ok {d : Delimiters} {src : Bytes} {m : Masked} :
    Masked.ofSource d src = .ok m ↔ Cut d {} .markup src m := by
  cases d with
  | brace => exact ⟨cut_of_maskBrace, maskBrace_of_cut⟩
  | erb => exact ⟨cut_of_maskErb, maskErb_of_cut⟩

theorem Masked.text_cons (p : Piece) (m : Masked) : Masked.text (p :: m) = p.shown ++ m.text :=
  List.flatMap_cons

theorem Masked.source_cons (p : Piece) (m : Masked) :
    Masked.source (p :: m) = p.written ++ m.source :=
  List.flatMap_cons

theorem Masked.text_append (m m' : Masked) : Masked.text (m ++ m') = m.text ++ m'.text :=
  List.flatMap_append

theorem Masked.source_append (m m' : Masked) : Masked.source (m ++ m') = m.source ++ m'.source :=
  List.flatMap_append

/-- The pieces put end to end give the source back. -/
theorem Cut.source_eq {d : Delimiters} {state : MaskState} {context : BraceContext} {s : Bytes}
    {m : Masked} (h : Cut d state context s m) : m.source = s := by
  induction h with
  | nil => rfl
  | escape after ih | block encloses nonempty allowed after ih | byte plain after ih =>
    rw [Masked.source, List.flatMap_cons, ← Masked.source, ih]
    rfl

/-- The context matters between braces only. -/
theorem Cut.any_context {state : MaskState} {context context' : BraceContext} {s : Bytes}
    {m : Masked} (h : Cut .erb state context s m) : Cut .erb state context' s m :=
  cut_of_maskErb (maskErb_of_cut h)

end DomTemplate
