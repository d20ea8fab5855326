import DomTemplate.Proofs.Cutting
import DomTemplate.Proofs.Outline

/-! A source with other code in its blocks is cut in the same way. Its literal text, its
escapes, and the numbers and kinds of its blocks stay as they are; only the lead that a mark
in the place of a tag name gets may change, because it depends on the text after the block. -/

namespace DomTemplate
open Ascii

/-- The source of `m` with each block replaced by one block of the same kind. -/
inductive Rewritten (d : Delimiters) : Masked → Bytes → Prop where
  | nil : Rewritten d [] []
  | byte {c : UInt8} {m : Masked} {s : Bytes} (after : Rewritten d m s) :
      Rewritten d (.byte c :: m) (c :: s)
  | escape {written shown : Bytes} {m : Masked} {s : Bytes} (after : Rewritten d m s) :
      Rewritten d (.escape written shown :: m) (written ++ s)
  | block {b b' : Block} {written : Bytes} {m : Masked} {s : Bytes}
      (single : Masked.ofSource d written = .ok [.block b']) (kind : b'.kind = b.kind)
      (after : Rewritten d m s) : Rewritten d (.block b :: m) (written ++ s)

/-- Two sources cut side by side: `before` and `before'` are the masked texts so far, last byte
first. The blocks may differ in their code, and then in their leads. -/
inductive Lockstep (d : Delimiters) : Bytes → Bytes → Bytes → Bytes → Masked → Masked → Prop where
  | nil {before before' : Bytes} : Lockstep d before before' [] [] [] []
  | escape {before before' s s' : Bytes} {m m' : Masked}
      (after : Lockstep d (d.escape.2.reverse ++ before) (d.escape.2.reverse ++ before') s s' m m') :
      Lockstep d before before' (d.escape.1 ++ s) (d.escape.1 ++ s')
        (.escape d.escape.1 d.escape.2 :: m) (.escape d.escape.1 d.escape.2 :: m')
  | block {before before' s s' inner inner' : Bytes} {m m' : Masked} {b b' : Block}
      (encloses : d.Encloses inner b.written) (encloses' : d.Encloses inner' b'.written)
      (number : b'.number = b.number) (kind : b'.kind = b.kind)
      (lead : b.lead = (endsInTagOpen before && closesTag d false false s))
      (lead' : b'.lead = (endsInTagOpen before' && closesTag d false false s'))
      (after : Lockstep d (b.shown.reverse ++ before) (b'.shown.reverse ++ before') s s' m m') :
      Lockstep d before before' (b.written ++ s) (b'.written ++ s') (.block b :: m) (.block b' :: m')
  | byte {before before' s s' : Bytes} {m m' : Masked} {c : UInt8} {context : BraceContext}
      (plain : ¬d.Starts context c s) (plain' : ¬d.Starts context c s')
      (after : Lockstep d (c :: before) (c :: before') s s' m m') :
      Lockstep d before before' (c :: s) (c :: s') (.byte c :: m) (.byte c :: m')

/-- A text that is masked as a single block is one. -/
theorem encloses_of_single {d : Delimiters} {written : Bytes} {b : Block}
    (h : Masked.ofSource d written = .ok [.block b]) :
    ∃ inner, d.Encloses inner written ∧ b.kind = (d.codeOf inner).1 ∧
      ((d.codeOf inner).2.trim ≠ [] ∨ (d.codeOf inner).1 = .comment) := by
  cases Masked.ofSource_ok.mp h with
  | block encloses nonempty allowed after =>
    cases after
    rw [List.append_nil]
    exact ⟨_, encloses, rfl, nonempty⟩

/-- What a block starts with. -/
def Delimiters.opener : Delimiters → UInt8
  | brace => lbrace
  | erb => lt

theorem Delimiters.Encloses.head?_eq {d : Delimiters} {inner written : Bytes}
    (h : d.Encloses inner written) (rest : Bytes) :
    (written ++ rest).head? = some d.opener := by
  cases d with
  | brace => obtain ⟨rfl, -⟩ := h; rfl
  | erb => obtain ⟨rfl, -⟩ := h; rfl

namespace Markup

theorem isPrefixOf_takeWhile {p s : Bytes} {q : UInt8 → Bool} (within : ∀ a ∈ p, q a = true) :
    p.isPrefixOf (s.takeWhile q) = p.isPrefixOf s := by
  induction p generalizing s with
  | nil => simp
  | cons a p ih =>
    cases s with
    | nil => rfl
    | cons b s =>
      have rest := ih (s := s) fun x mem => within x (List.mem_cons_of_mem _ mem)
      by_cases kept : q b = true
      · rw [List.takeWhile_cons_of_pos kept, List.isPrefixOf_cons_cons, List.isPrefixOf_cons_cons,
          rest]
      · have differs : (a == b) = false := by
          rw [beq_eq_false_iff_ne]
          rintro rfl
          exact kept (within a List.mem_cons_self)
        rw [List.takeWhile_cons_of_neg kept, List.isPrefixOf_cons_cons, differs]
        rfl

section
variable {q : UInt8 → Bool} (lowered : ∀ b, q (Ascii.lower b) = q b)
include lowered

theorem startsWithFold_takeWhile {p : Bytes} (within : (Bytes.lower p).all q = true) (s : Bytes) :
    Bytes.startsWithFold (s.takeWhile q) p = Bytes.startsWithFold s p := by
  have front : Bytes.lower (s.takeWhile q) = (Bytes.lower s).takeWhile q := by
    rw [Bytes.lower, Bytes.lower, List.takeWhile_map]
    congr 2
    funext b
    exact (lowered b).symm
  rw [Bytes.startsWithFold, Bytes.startsWith, front,
    isPrefixOf_takeWhile (List.all_eq_true.mp within)]
  rfl

theorem startsName_takeWhile (stops : ∀ b, q b = false → endsName b = false) {name : Bytes}
    (within : (Bytes.lower name).all q = true) (s : Bytes) :
    startsName name (s.takeWhile q) = startsName name s := by
  rw [startsName, startsName, startsWithFold_takeWhile lowered within]
  cases named : Bytes.startsWithFold s name with
  | false => rfl
  | true =>
    have short : name.length ≤ (s.takeWhile q).length := by
      rw [← startsWithFold_takeWhile lowered within] at named
      have inside := (List.isPrefixOf_iff_prefix.mp named).length_le
      simpa [Bytes.lower] using inside
    have split : s.drop name.length = (s.takeWhile q).drop name.length ++ s.dropWhile q := by
      rw [← List.drop_append_of_le_length short, List.takeWhile_append_dropWhile]
    rw [split]
    cases (s.takeWhile q).drop name.length with
    | cons b bs => rfl
    | nil =>
      -- the text goes on with a byte at most that ends no name
      cases rest : s.dropWhile q with
      | nil => rfl
      | cons b bs =>
        have stop := List.head?_dropWhile_not q s
        rw [rest] at stop
        exact (stops b (by simpa using stop)).symm

end

end Markup

namespace BraceContext

section
variable {q : UInt8 → Bool} (lowered : ∀ b, q (Ascii.lower b) = q b)
  (stops : ∀ b, q b = false → Markup.endsName b = false)
  (names : ∀ e ∈ [Markup.RawElement.script, .style], (Bytes.lower e.name).all q = true)
  {s s' : Bytes} (same : s'.takeWhile q = s.takeWhile q)
include lowered stops names same

/-- What follows a `<` counts up to the first byte that is in no name and ends none. -/
theorem opened?_congr : opened? s' = opened? s := by
  have starts : ∀ e ∈ [Markup.RawElement.script, .style],
      Markup.startsName e.name s' = Markup.startsName e.name s := by
    intro e mem
    rw [← Markup.startsName_takeWhile lowered stops (names e mem) s', same,
      Markup.startsName_takeWhile lowered stops (names e mem) s]
  simp only [opened?, List.find?_cons, starts .script (by decide), starts .style (by decide),
    List.find?_nil]

theorem next_congr {context : BraceContext}
    (closing : ∀ e, context = .inside e → (Bytes.lower (slash :: e.name)).all q = true)
    (c : UInt8) : context.next c s' = context.next c s := by
  have opened := opened?_congr lowered stops names same
  cases context with
  | markup => simp only [BraceContext.next, opened]
  | opening e => simp only [BraceContext.next, opened]
  | inside e =>
    simp only [BraceContext.next]
    rw [← Markup.startsWithFold_takeWhile lowered (closing e rfl) s', same,
      Markup.startsWithFold_takeWhile lowered (closing e rfl) s]

end

end BraceContext

namespace Markup

/-- Not a brace that opens code. -/
def isLiteral (b : UInt8) : Bool := b != lbrace

theorem isLiteral_lower (b : UInt8) : isLiteral (Ascii.lower b) = isLiteral b :=
  Bytes.forall_byte (p := fun b => isLiteral (Ascii.lower b) = isLiteral b) (by decide +kernel) b

theorem endsName_of_literal (b : UInt8) : isLiteral b = false → endsName b = false :=
  Bytes.forall_byte (p := fun b => isLiteral b = false → endsName b = false) (by decide +kernel) b

end Markup

namespace Cut
variable {d : Delimiters} {state : MaskState} {context : BraceContext} {s s' : Bytes} {m : Masked}

theorem head?_rewritten (h : Cut d state context s m) (r : Rewritten d m s') :
    s'.head? = s.head? := by
  cases h with
  | nil => cases r; rfl
  | escape after =>
    cases r with
    | escape => cases d <;> rfl
  | block encloses nonempty allowed after =>
    cases r with
    | block single kind rest =>
      obtain ⟨inner, other, -, -⟩ := encloses_of_single single
      rw [encloses.head?_eq, other.head?_eq]
  | byte plain after =>
    cases r with
    | byte => rfl

/-- Up to the first brace, the two sources are the same. -/
theorem literal_rewritten (h : Cut .brace state context s m) (r : Rewritten .brace m s') :
    s'.takeWhile Markup.isLiteral = s.takeWhile Markup.isLiteral := by
  induction h generalizing s' with
  | nil => cases r; rfl
  | escape after ih =>
    cases r with
    | escape => rfl
  | block encloses nonempty allowed after ih =>
    cases r with
    | block single kind rest =>
      obtain ⟨inner, other, -, -⟩ := encloses_of_single single
      obtain ⟨rfl, -⟩ := encloses
      obtain ⟨rfl, -⟩ := other
      rfl
  | byte plain after ih =>
    cases r with
    | byte rest => rw [List.takeWhile_cons, List.takeWhile_cons, ih rest]

theorem next_rewritten (h : Cut .brace state context s m) (r : Rewritten .brace m s') (c : UInt8)
    (at_c : BraceContext) : at_c.next c s' = at_c.next c s := by
  refine BraceContext.next_congr Markup.isLiteral_lower Markup.endsName_of_literal
    (by decide +kernel) (h.literal_rewritten r) (fun e _ => ?_) c
  cases e <;> rfl

theorem starts_rewritten (h : Cut d state context s m) (r : Rewritten d m s') (c : UInt8)
    (at_c : BraceContext) : d.Starts at_c c s' ↔ d.Starts at_c c s := by
  cases d <;> simp only [Delimiters.Starts, h.head?_rewritten r]

/-- A source with other code is cut in step with it. -/
theorem rewrite (h : Cut d state context s m) (r : Rewritten d m s') (state' : MaskState)
    (number : state'.number = state.number) :
    ∃ m', Cut d state' context s' m' ∧ Lockstep d state.before state'.before s s' m m' := by
  induction h generalizing s' state' with
  | nil => cases r; exact ⟨[], .nil, .nil⟩
  | escape after ih =>
    cases r with
    | escape rest =>
      obtain ⟨m', cut, step⟩ := ih rest (state'.push (.escape d.escape.1 d.escape.2)) number
      exact ⟨_, .escape cut, .escape step⟩
  | @block state context inner written rest m encloses nonempty allowed after ih =>
    cases r with
    | @block b b' written' m s' single kind rest =>
      obtain ⟨inner', other, same, nonempty'⟩ := encloses_of_single single
      rw [same] at kind
      obtain ⟨m', cut, step⟩ := ih rest (state'.push (.block (state'.block d inner' written' s')))
        (by simp only [MaskState.push, number])
      refine ⟨_, .block other nonempty' (fun brace inside => ?_) cut, ?_⟩
      · exact kind.trans (allowed brace inside)
      · exact @Lockstep.block d _ _ _ _ _ _ _ _ (state.block d inner written _)
          (state'.block d inner' written' s') encloses other number kind rfl rfl step
  | @byte state context c rest m plain after ih =>
    cases r with
    | @byte c m s' rest' =>
      obtain ⟨m', cut, step⟩ := ih rest' (state'.push (.byte c)) number
      have plain' := mt (after.starts_rewritten rest' c context).mp plain
      refine ⟨_, .byte plain' ?_, .byte plain plain' step⟩
      cases d with
      | brace => rw [after.next_rewritten rest' c context]; exact cut
      | erb => exact cut.any_context

end Cut

def Piece.lead : Piece → Bool
  | block b => b.lead
  | _ => false

namespace Lockstep
variable {d : Delimiters} {before before' s s' : Bytes} {m m' : Masked}

/-- Where the leads agree, the masked texts are the same. -/
theorem text_eq (h : Lockstep d before before' s s' m m') (leads : m.map Piece.lead = m'.map Piece.lead) :
    m.text = m'.text := by
  induction h with
  | nil => rfl
  | escape after ih | byte plain plain' after ih =>
    rw [List.map_cons, List.map_cons, List.cons.injEq] at leads
    rw [Masked.text, Masked.text, List.flatMap_cons, List.flatMap_cons, ← Masked.text,
      ← Masked.text, ih leads.2]
  | block encloses encloses' number kind lead lead' after ih =>
    rw [List.map_cons, List.map_cons, List.cons.injEq] at leads
    have shown := leads.1
    simp only [Piece.lead] at shown
    rw [Masked.text, Masked.text, List.flatMap_cons, List.flatMap_cons, ← Masked.text,
      ← Masked.text, ih leads.2, Piece.shown, Piece.shown, Block.shown, Block.shown, shown, number]

theorem sameMarks (h : Lockstep d before before' s s' m m')
    (leads : m.map Piece.lead = m'.map Piece.lead) (start start' : Nat) :
    SameMarks (m.blocksFrom start) (m'.blocksFrom start') := by
  induction h generalizing start start' with
  | nil => exact .nil
  | escape after ih | byte plain plain' after ih =>
    rw [List.map_cons, List.map_cons, List.cons.injEq] at leads
    exact ih leads.2 _ _
  | block encloses encloses' number kind lead lead' after ih =>
    rw [List.map_cons, List.map_cons, List.cons.injEq] at leads
    exact .cons ⟨kind, leads.1.symm⟩ (ih leads.2 _ _)

end Lockstep

end DomTemplate
