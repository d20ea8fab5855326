import DomTemplate.Proofs.ScriptText
import DomTemplate.Proofs.TextRuns
import Mathlib.Data.List.Flatten
import Mathlib.Data.List.Forall2

/-! What a text run keeps. Trimming takes blanks of ASCII off a literal and nothing else, but a
literal is passed over as a whole if it is white space in the wider sense of Unicode. So a run
keeps every byte that is no blank, in its place between the code, except those of such literals:
a no-break space is kept next to a letter and lost on its own. -/

namespace DomTemplate

/-- What a template has in a text run, a name or a value: literal text or code. -/
def Part.isWritten : Part → Bool
  | raw _ | code _ => true
  | absent | misplaced _ => false

namespace Bytes
variable {s t : Bytes}

/-- `s` without the blanks that literals are trimmed of. -/
def solid (s : Bytes) : Bytes := s.filter (!Ascii.isBlank ·)

theorem solid_append (s t : Bytes) : solid (s ++ t) = solid s ++ solid t :=
  List.filter_append ..

theorem solid_eq_nil : solid s = [] ↔ ∀ b ∈ s, Ascii.isBlank b = true := by
  simp [solid, List.filter_eq_nil_iff]

theorem solid_dropWhile (s : Bytes) : solid (s.dropWhile Ascii.isBlank) = solid s := by
  have front : solid (s.takeWhile Ascii.isBlank) = [] :=
    solid_eq_nil.mpr fun b mem => List.mem_takeWhile_imp mem
  conv_rhs => rw [← List.takeWhile_append_dropWhile (p := Ascii.isBlank) (l := s)]
  rw [solid_append, front, List.nil_append]

theorem solid_reverse (s : Bytes) : solid s.reverse = (solid s).reverse :=
  List.filter_reverse ..

/-- Trimming keeps what is no blank. -/
theorem solid_trimmed (keepStart keepEnd : Bool) (s : Bytes) :
    solid (trimmed keepStart keepEnd s) = solid s := by
  have right (s : Bytes) : solid (dropWhileRight Ascii.isBlank s) = solid s := by
    rw [dropWhileRight, solid_reverse, solid_dropWhile, solid_reverse, List.reverse_reverse]
  cases keepStart <;> cases keepEnd <;> simp [trimmed, right, solid_dropWhile]

end Bytes

namespace Compile
open Bytes Intent

/-- What a part of a text run may come to. A literal of white space comes to nothing; any other
keeps what is no blank, and is not empty. -/
inductive Kept : Part → Intent → Prop where
  | blank {value : Bytes} (blank : value.isBlank = true) : Kept (.raw value) .ignore
  | literal {value text : Bytes} (filled : value.isBlank = false) (nonempty : text ≠ [])
      (same : solid text = solid value) : Kept (.raw value) (.content text)
  | code (block : Code) : Kept (.code block) (code block)

theorem kept_literal (after before : Bool) (value : Bytes) :
    Kept (.raw value) (literal after before value) := by
  cases blank : value.isBlank with
  | true =>
    rw [literal, blank]
    exact .blank blank
  | false =>
    rw [literal_filled blank]
    obtain ⟨lead, core, trail, frame⟩ := exists_core blank
    refine .literal blank ?_ (solid_trimmed after before value)
    simp [frame.trimmed_eq, frame.ne_nil]

theorem contents_code (block : Code) : contents [code block] = [] := by
  unfold code
  split <;> rfl

theorem Kept.content_ne_nil {p : Part} {n : Intent} (h : Kept p n) {text : Bytes}
    (shown : n = .content text) : text ≠ [] := by
  cases h with
  | blank => cases shown
  | literal filled nonempty =>
    cases shown
    exact nonempty
  | code block =>
    unfold Compile.code at shown
    split at shown <;> cases shown

/-- Literal text and code are kept, each part in its place. -/
theorem runIntents_kept {parts : List Part} (written : ∀ p ∈ parts, p.isWritten = true)
    (after before : Bool) :
    ∃ nodes, runIntents after before parts = .ok nodes ∧ List.Forall₂ Kept parts nodes := by
  induction parts generalizing after with
  | nil => exact ⟨[], rfl, .nil⟩
  | cons p ps ih =>
    rw [List.forall_mem_cons] at written
    obtain ⟨nodes, run, kept⟩ := ih written.2 p.isExpression
    obtain ⟨n, first, here⟩ :
        ∃ n, partIntent after (startsWithExpression before ps) p = .ok n ∧ Kept p n := by
      cases p with
      | raw value => exact ⟨_, rfl, kept_literal _ _ value⟩
      | code block => exact ⟨_, rfl, .code block⟩
      | absent | misplaced => cases written.1
    refine ⟨n :: nodes, ?_, .cons here kept⟩
    rw [runIntents, first, run]
    rfl

section
variable {parts : List Part} {nodes : List Intent}

theorem contents_ne_nil (h : List.Forall₂ Kept parts nodes) {text : Bytes}
    (mem : .content text ∈ nodes) : text ≠ [] := by
  induction h with
  | nil => cases mem
  | cons kept _ ih =>
    rcases List.mem_cons.mp mem with shown | later
    · exact kept.content_ne_nil shown.symm
    · exact ih later

/-- What a run keeps are its literals, those of white space aside. -/
theorem solid_contents (h : List.Forall₂ Kept parts nodes) :
    solid (contents nodes) =
      solid ((parts.filter (!isBlankRaw ·)).flatMap Part.literalText) := by
  induction h with
  | nil => rfl
  | @cons p n ps ns kept _ ih =>
    rw [← List.singleton_append, contents_append, solid_append, ih]
    cases kept with
    | blank blank => simp [isBlankRaw, blank, contents, solid]
    | literal filled nonempty same =>
      simp [isBlankRaw, filled, contents, same, solid_append, Part.literalText]
    | code block =>
      rw [contents_code]
      simp [isBlankRaw, Part.literalText, solid]

/-- Nothing is missed exactly if literals of white space hold nothing but blanks. -/
theorem solid_filled (parts : List Part) :
    solid ((parts.filter (!isBlankRaw ·)).flatMap Part.literalText) =
        solid (parts.flatMap Part.literalText) ↔
      ∀ p ∈ parts, isBlankRaw p = true → ∀ b ∈ p.literalText, Ascii.isBlank b = true := by
  induction parts with
  | nil => simp
  | cons p ps ih =>
    rw [List.forall_mem_cons, ← ih, List.flatMap_cons, solid_append, ← solid_eq_nil]
    cases blank : isBlankRaw p with
    | false =>
      rw [List.filter_cons_of_pos (by simp [blank]), List.flatMap_cons, solid_append]
      simp
    | true =>
      rw [List.filter_cons_of_neg (by simp [blank])]
      -- the filter only takes away from the rest, so equal lengths leave no byte for `p`
      have fewer : (solid ((ps.filter (!isBlankRaw ·)).flatMap Part.literalText)).length ≤
          (solid (ps.flatMap Part.literalText)).length :=
        ((List.filter_sublist.flatMap _).filter _).length_le
      constructor
      · intro same
        have sizes := congrArg List.length same
        rw [List.length_append] at sizes
        have nothing : solid p.literalText = [] := List.length_eq_zero_iff.mp (by omega)
        rw [nothing] at same
        exact ⟨fun _ => nothing, same⟩
      · rintro ⟨nothing, same⟩
        rw [nothing rfl, same, List.nil_append]

end

/-- A text run compiles to an intent for each of its parts, in their order. Code is in its place,
no text is empty, and up to each place the texts hold the literals before it, those of white space
aside, with all that is no blank. They hold all of the literals exactly if those of white space
hold nothing but blanks. -/
theorem text_keeps {parts : List Part} (written : ∀ p ∈ parts, p.isWritten = true) (f : Frame)
    (outer : Scopes) (issued : List Bytes) :
    ∃ nodes,
      text parts ⟨f :: outer, issued⟩ =
        .ok (.container ⟨f.target, nodes⟩, ⟨f :: outer, issued⟩) ∧
      List.Forall₂ Kept parts nodes ∧ (∀ text, .content text ∈ nodes → text ≠ []) ∧
      ∀ i,
        solid (contents (nodes.take i)) =
            solid (((parts.take i).filter (!isBlankRaw ·)).flatMap Part.literalText) ∧
          (solid (contents (nodes.take i)) = solid ((parts.take i).flatMap Part.literalText) ↔
            ∀ p ∈ parts.take i, isBlankRaw p = true →
              ∀ b ∈ p.literalText, Ascii.isBlank b = true) := by
  obtain ⟨nodes, run, kept⟩ := runIntents_kept written false false
  refine ⟨nodes, ?_, kept, fun _ mem => contents_ne_nil kept mem, fun i => ?_⟩
  · rw [text_run, run]
    rfl
  · have upto := solid_contents (List.forall₂_take i kept)
    exact ⟨upto, by rw [upto, solid_filled]⟩

/-- `total: {=n}`, a no-break space, `{unit}` and ` .` as parts of a text run. -/
def amountParts : List Part :=
  [.raw (utf8 "total: "), .code ⟨.expression, utf8 "n", {}⟩, .raw (utf8 "\u00a0"),
    .code ⟨.statement, utf8 "unit", {}⟩, .raw (utf8 " .")]

/-- The no-break space between two code blocks is all that is lost. -/
theorem text_keeps_amount :
    (∀ p ∈ amountParts, p.isWritten = true) ∧ ∃ nodes,
      text amountParts ⟨[{ target := utf8 "p" }], []⟩ =
        .ok (.container ⟨utf8 "p", nodes⟩, ⟨[{ target := utf8 "p" }], []⟩) ∧
      solid (contents (nodes.take 2)) = utf8 "total:" ∧ solid (contents nodes) = utf8 "total:." ∧
      solid (contents (nodes.take 2)) = solid ((amountParts.take 2).flatMap Part.literalText) ∧
      solid (contents (nodes.take 3)) ≠ solid ((amountParts.take 3).flatMap Part.literalText) := by
  have written : ∀ p ∈ amountParts, p.isWritten = true := by decide
  refine ⟨written, ?_⟩
  obtain ⟨nodes, run, kept, -, upto⟩ := text_keeps written { target := utf8 "p" } [] []
  have whole : nodes.take 5 = nodes := List.take_of_length_le kept.length_eq.ge
  refine ⟨nodes, run, ?_, ?_, ?_, ?_⟩
  · rw [(upto 2).1]
    decide +kernel
  · rw [← whole, (upto 5).1]
    decide +kernel
  · rw [(upto 2).2]
    decide +kernel
  · rw [Ne, (upto 3).2]
    decide +kernel

/-- A no-break space that stands alone vanishes, although it is no blank to be trimmed. -/
theorem lone_space_lost :
    text [.raw (utf8 "\u00a0")] ⟨[{ target := utf8 "p" }], []⟩ =
        .ok (.container ⟨utf8 "p", [.ignore]⟩, ⟨[{ target := utf8 "p" }], []⟩) ∧
      solid (contents [.ignore]) ≠ solid ([.raw (utf8 "\u00a0")].flatMap Part.literalText) := by
  have blank : literal false false (utf8 "\u00a0") = .ignore := by
    rw [literal, show Bytes.isBlank (utf8 "\u00a0") = true by decide +kernel]
    rfl
  refine ⟨?_, by decide +kernel⟩
  rw [text_run, ← blank]
  rfl

end Compile
end DomTemplate
