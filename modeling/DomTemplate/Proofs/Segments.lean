import DomTemplate.Proofs.CodeOrder
import DomTemplate.Proofs.RoundTrip
import DomTemplate.Proofs.Skeleton

/-! Masking loses nothing. The escapes and the blocks of a source are the segments that masking
replaces: each has its span in the source and its span in the masked text, the segments follow one
another in both, and all other bytes are copied. The source offset of a byte is found from the
segments alone, and the masked text with its marks undone is the source with its escapes read. -/

namespace DomTemplate
open Ascii Bytes

/-- A replacement: its span in the masked text and the span of the source that it stands for. -/
structure Segment where
  text : Nat
  textLength : Nat
  source : Nat
  sourceLength : Nat
  deriving DecidableEq, Repr

namespace Segment

def shows (seg : Segment) (off : Nat) : Bool := seg.text ≤ off && off < seg.text + seg.textLength

def spans (seg : Segment) (off : Nat) : Bool :=
  seg.source ≤ off && off < seg.source + seg.sourceLength

def shown (seg : Segment) (text : Bytes) : Bytes := (text.drop seg.text).take seg.textLength

def written (seg : Segment) (src : Bytes) : Bytes := (src.drop seg.source).take seg.sourceLength

/-- The source offset of byte `off`, no segment being between `seg` and that byte. -/
def origin (seg : Segment) (off : Nat) : Nat :=
  if off < seg.text + seg.textLength then seg.source
  else seg.source + seg.sourceLength + (off - (seg.text + seg.textLength))

/-- The source offset of byte `off`, found from the last segment that starts there or before. -/
def lookup (segments : List Segment) (off : Nat) : Nat :=
  (segments.takeWhile (·.text ≤ off)).getLast?.elim off (·.origin off)

/-- The source from offset `pos` on, with `f` in place of each segment. -/
def replace (src : Bytes) (f : Segment → Bytes) (pos : Nat) : List Segment → Bytes
  | [] => src.drop pos
  | seg :: segments =>
    (src.drop pos).take (seg.source - pos) ++ f seg ++
      replace src f (seg.source + seg.sourceLength) segments

end Segment

def Piece.isCopied : Piece → Bool
  | byte _ => true
  | escape .. | block _ => false

/-- The segment of a piece that starts at the given offsets. -/
def Piece.segment (p : Piece) (text source : Nat) : Segment :=
  ⟨text, p.shown.length, source, p.written.length⟩

namespace Masked

/-- The segments of pieces of which the first starts at the given offsets. -/
def segmentsFrom (text source : Nat) : Masked → List Segment
  | [] => []
  | p :: ps =>
    let later := segmentsFrom (text + p.shown.length) (source + p.written.length) ps
    if p.isCopied then later else p.segment text source :: later

def segments (m : Masked) : List Segment := m.segmentsFrom 0 0

section Segments
variable {m : Masked} {p : Piece} {seg : Segment} {t s i j : Nat}

theorem mem_segmentsFrom_cons :
    seg ∈ segmentsFrom t s (p :: m) ↔ (p.isCopied = false ∧ seg = p.segment t s) ∨
      seg ∈ m.segmentsFrom (t + p.shown.length) (s + p.written.length) := by
  cases copied : p.isCopied <;> simp [segmentsFrom, copied]

theorem mem_segmentsFrom :
    seg ∈ m.segmentsFrom t s ↔ ∃ front p back, m = front ++ p :: back ∧ p.isCopied = false ∧
      seg = p.segment (t + (Masked.text front).length) (s + (Masked.source front).length) := by
  induction m generalizing t s with
  | nil => simp [segmentsFrom]
  | cons q m ih =>
    rw [mem_segmentsFrom_cons, ih]
    constructor
    · rintro (⟨replaced, rfl⟩ | ⟨front, p, back, rfl, replaced, rfl⟩)
      · exact ⟨[], q, m, rfl, replaced, rfl⟩
      · exact ⟨q :: front, p, back, rfl, replaced, by
          simp [text_cons, source_cons, Nat.add_assoc]⟩
    · rintro ⟨front, p, back, split, replaced, rfl⟩
      rcases List.cons_eq_append_iff.mp split with ⟨rfl, same⟩ | ⟨front, rfl, rfl⟩
      · cases same
        exact .inl ⟨replaced, rfl⟩
      · exact .inr ⟨front, p, back, rfl, replaced, by
          simp [text_cons, source_cons, Nat.add_assoc]⟩

end Segments

end Masked

/-- A segment is an escape of the source, or one of its blocks behind its mark. -/
structure Segment.Replaces (d : Delimiters) (m : Masked) (seg : Segment) : Prop where
  shows : 0 < seg.textLength
  spans : 0 < seg.sourceLength
  kind : (seg.written m.source = d.escape.1 ∧ seg.shown m.text = d.escape.2) ∨
    ∃ b inner, (seg.source, b) ∈ m.blocks ∧ d.Encloses inner b.written ∧
      seg.written m.source = b.written ∧ seg.shown m.text = b.shown

section Restoring
variable {d : Delimiters} {state : MaskState} {context : BraceContext} {s : Bytes} {m : Masked}
  {blocks : List (Nat × Block)}

theorem Cut.escape_eq (cut : Cut d state context s m) {written shown : Bytes}
    (mem : .escape written shown ∈ m) : written = d.escape.1 ∧ shown = d.escape.2 := by
  induction cut with
  | nil => cases mem
  | escape after ih =>
    rcases List.mem_cons.mp mem with same | later
    · cases same
      exact ⟨rfl, rfl⟩
    · exact ih later
  | block encloses nonempty allowed after ih | byte plain after ih => exact ih (by simpa using mem)

/-- The second text is the first with the marks undone, and what stands between them holds no
opening character. -/
inductive Restores (blocks : List (Nat × Block)) : Bytes → Bytes → Prop where
  | plain {u : Bytes} (avoids : Avoids u markOpen) : Restores blocks u u
  | block {u s t : Bytes} {off : Nat} {b : Block} (avoids : Avoids u markOpen)
      (known : blocks[b.number]? = some (off, b)) (rest : Restores blocks s t) :
      Restores blocks (u ++ (b.shown ++ s)) (u ++ (b.written ++ t))

namespace Restores
variable {t u : Bytes}

theorem prepend (closed : Sealed u markOpen) (h : Restores blocks s t) :
    Restores blocks (u ++ s) (u ++ t) := by
  cases h with
  | plain avoids => exact .plain (closed.append_avoids avoids (by decide))
  | block avoids known rest =>
    rw [← List.append_assoc u, ← List.append_assoc u]
    exact .block (closed.append_avoids avoids (by decide)) known rest

theorem byte {c : UInt8} (plain : ¬markOpen <+: c :: s) (h : Restores blocks s t) :
    Restores blocks (c :: s) (c :: t) := by
  have avoids_cons {u rest : Bytes} (same : s = u ++ rest) (avoids : Avoids u markOpen) :
      Avoids (c :: u) markOpen := by
    intro occurs
    rcases List.infix_cons_iff.mp occurs with here | later
    · exact plain (here.trans ⟨rest, by rw [same]; rfl⟩)
    · exact avoids later
  cases h with
  | plain avoids => exact .plain (avoids_cons (List.append_nil _).symm avoids)
  | block avoids known rest => exact .block (avoids_cons rfl avoids) known rest

theorem unmask (few : blocks.length ≤ signedLimit) (h : Restores blocks s t) :
    unmask blocks s = .ok t := by
  induction h with
  | plain avoids => rw [unmask_eq, firstMark, cut?_of_avoids (by decide) avoids]
  | @block u s t off b avoids known rest ih =>
    have small : b.number < signedLimit :=
      Nat.lt_of_lt_of_le (List.getElem?_eq_some_iff.mp known).1 few
    have first : firstMark blocks (u ++ (b.shown ++ s)) = .block u off b s := by
      rw [Block.shown]
      cases lead : b.lead with
      | false =>
        have found := firstMark_mark avoids small known s
        rwa [Block.headOf, lead] at found
      | true =>
        -- the lead belongs to the mark and not to the text before it
        have led := (avoids.concat (c := lowerX) (by decide) (by decide)).avoids
        have found := firstMark_mark led small known s
        rw [Block.headOf, lead, if_pos rfl] at found
        have lessLead : trimSuffix tagLead (u ++ [lowerX]) = u := by
          have kept : dropSuffix? tagLead (u ++ [lowerX]) = some u := dropSuffix?_eq_some.mpr rfl
          rw [trimSuffix, kept, Option.getD_some]
        rw [lessLead, List.append_assoc] at found
        exact found
    rw [unmask_eq, first]
    simp only [ih]
    simp [Except.map]

end Restores

def Piece.restored : Piece → Bytes
  | byte b => [b]
  | escape _ shown => shown
  | block b => b.written

theorem escape_sealed (d : Delimiters) : Sealed d.escape.2 markOpen := by
  cases d <;> decide

/-- The masked text of a source without opening characters, with its marks undone. -/
theorem Cut.restores (cut : Cut d state context s m) (clean : Avoids s markOpen)
    (known : ∀ b, .block b ∈ m → ∃ off, blocks[b.number]? = some (off, b)) :
    Restores blocks m.text (m.flatMap Piece.restored) := by
  induction cut with
  | nil => exact .plain (avoids_nil (by decide))
  | escape after ih =>
    have rest := ih (clean.inside (List.suffix_append _ _).isInfix)
      fun b mem => known b (List.mem_cons_of_mem _ mem)
    exact rest.prepend (escape_sealed d)
  | block encloses nonempty allowed after ih =>
    have rest := ih (clean.inside (List.suffix_append _ _).isInfix)
      fun b mem => known b (List.mem_cons_of_mem _ mem)
    obtain ⟨off, found⟩ := known _ List.mem_cons_self
    exact .block (avoids_nil (by decide)) found rest
  | byte plain after ih =>
    have rest := ih (clean.inside (List.suffix_cons _ _).isInfix)
      fun b mem => known b (List.mem_cons_of_mem _ mem)
    exact rest.byte fun opens => clean (after.reserved_prefix (by decide) opens).isInfix

end Restoring

section
variable {d : Delimiters} {src : Bytes} {m : Masked}

theorem Masked.written_segment {front back : Masked} {p : Piece} (split : m = front ++ p :: back) :
    (p.segment front.text.length front.source.length).written m.source = p.written := by
  rw [split, Masked.source_append, Masked.source_cons]
  simp [Segment.written, Piece.segment]

theorem Masked.shown_segment {front back : Masked} {p : Piece} (split : m = front ++ p :: back) :
    (p.segment front.text.length front.source.length).shown m.text = p.shown := by
  rw [split, Masked.text_append, Masked.text_cons]
  simp [Segment.shown, Piece.segment]

theorem Cut.replaces {state : MaskState} {context : BraceContext} (cut : Cut d state context src m)
    {seg : Segment} (mem : seg ∈ m.segments) : seg.Replaces d m := by
  obtain ⟨front, p, back, split, replaced, rfl⟩ := Masked.mem_segmentsFrom.mp mem
  have inside : p ∈ m := by simp [split]
  simp only [Nat.zero_add]
  refine ⟨List.length_pos_iff.mpr (cut.isFirm p inside).nonempty,
    List.length_pos_iff.mpr (cut.written_ne_nil p inside), ?_⟩
  rw [Masked.written_segment split, Masked.shown_segment split]
  cases p with
  | byte b => cases replaced
  | escape written shown => exact .inl (cut.escape_eq inside)
  | block b =>
    obtain ⟨inner, encloses, -⟩ := cut.encloses inside
    have numbered : ((Masked.source front).length, b) ∈ m.blocks :=
      Masked.mem_blocksFrom.mpr ⟨front, back, split, (Nat.zero_add _).symm⟩
    exact .inr ⟨b, inner, numbered, encloses, rfl, rfl⟩

theorem Cut.few_blocks {state : MaskState} {context : BraceContext}
    (cut : Cut d state context src m) (small : src.length < signedLimit) :
    m.blocks.length ≤ signedLimit := by
  have fewer := Masked.length_blocksFrom_le cut.written_ne_nil 0
  rw [cut.source_eq] at fewer
  exact Nat.le_of_lt (Nat.lt_of_le_of_lt fewer small)

end

end DomTemplate
