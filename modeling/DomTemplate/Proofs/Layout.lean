import DomTemplate.Page
import DomTemplate.Markup.Token
import DomTemplate.Proofs.Replacement

/-! The layout of a text: its indentation and its line ends. Both are changed byte by byte, with
one bit of state, so that a text and what it is put in are laid out one after the other. Rules that
look at no blank and at no line end replace the same in a text however it is laid out. -/

namespace DomTemplate
open Ascii Markup

/-- Indent the rest of a text; `start` says that a line starts here. -/
def indentFrom (n : Nat) : (start : Bool) → Bytes → Bytes
  | _, [] => []
  | start, c :: s =>
    if c = lf then lf :: indentFrom n true s
    else (if start then Bytes.replicate n space else []) ++ c :: indentFrom n false s

section Indent
variable {n : Nat} {start : Bool} {p s : Bytes}

theorem join_cons (sep a : Bytes) (pieces : List Bytes) :
    Bytes.join sep (a :: pieces) = a ++ pieces.flatMap (sep ++ ·) := by
  induction pieces generalizing a with
  | nil => simp [Bytes.join]
  | cons b pieces ih =>
    have rest := ih b
    rw [Bytes.join] at rest ⊢
    rw [List.intercalate_cons_cons, rest, List.flatMap_cons, List.append_assoc, List.append_assoc]

/-- One line of an indented text. -/
def indentLine (n : Nat) (line : Bytes) : Bytes :=
  if line.isEmpty then line else Bytes.replicate n space ++ line

theorem indentFrom_eq (n : Nat) (s : Bytes) : ∃ first rest, Bytes.splitOn lf s = first :: rest ∧
    indentFrom n true s = Bytes.join [lf] ((first :: rest).map (indentLine n)) ∧
    indentFrom n false s = Bytes.join [lf] (first :: rest.map (indentLine n)) := by
  induction s with
  | nil => exact ⟨[], [], rfl, rfl, rfl⟩
  | cons c s ih =>
    obtain ⟨first, rest, split, started, inside⟩ := ih
    rw [List.map_cons, join_cons] at started
    rw [join_cons] at inside
    by_cases line : c = lf
    · refine ⟨[], first :: rest, by rw [Bytes.splitOn, if_pos line, split], ?_, ?_⟩ <;>
        simp [indentFrom, line, started, join_cons, indentLine]
    · refine ⟨c :: first, rest, by rw [Bytes.splitOn, if_neg line, split], ?_, ?_⟩ <;>
        simp [indentFrom, line, inside, join_cons, indentLine]

theorem indentLines_eq (n : Nat) (s : Bytes) : indentLines n s = indentFrom n true s := by
  obtain ⟨first, rest, split, started, -⟩ := indentFrom_eq n s
  rw [started, indentLines, split]
  rfl

/-- Within a line nothing is indented. -/
theorem indentFrom_inside (line : lf ∉ p) (s : Bytes) :
    indentFrom n false (p ++ s) = p ++ indentFrom n false s := by
  induction p with
  | nil => rfl
  | cons c p ih =>
    rw [List.mem_cons, not_or] at line
    rw [List.cons_append, indentFrom, if_neg (Ne.symm line.1), ih line.2]
    rfl

theorem indentFrom_line (nonempty : p ≠ []) (line : lf ∉ p) (s : Bytes) :
    indentFrom n start (p ++ s) =
      (if start then Bytes.replicate n space else []) ++ (p ++ indentFrom n false s) := by
  obtain ⟨c, p, rfl⟩ := List.exists_cons_of_ne_nil nonempty
  rw [List.mem_cons, not_or] at line
  rw [List.cons_append, indentFrom, if_neg (Ne.symm line.1), indentFrom_inside line.2]
  rfl

/-- Behind the piece `p` of a line the text goes on within the line. -/
theorem indentFrom_append (nonempty : p ≠ []) (line : lf ∉ p) (s t : Bytes) :
    indentFrom n start (s ++ p ++ t) = indentFrom n start (s ++ p) ++ indentFrom n false t := by
  induction s generalizing start with
  | nil =>
    have alone : indentFrom n start (p ++ []) = _ := indentFrom_line nonempty line []
    rw [List.append_nil] at alone
    simp only [List.nil_append, indentFrom_line nonempty line, alone, indentFrom, List.append_nil,
      List.append_assoc]
  | cons c s ih =>
    simp only [List.cons_append, indentFrom]
    split
    · rw [ih, List.cons_append]
    · rw [ih, List.append_assoc, List.cons_append]

theorem suffix_indentFrom (line : lf ∉ p) (s : Bytes) : p <:+ indentFrom n start (s ++ p) := by
  induction s generalizing start with
  | nil =>
    by_cases empty : p = []
    · rw [empty]
      exact List.nil_suffix
    · have whole : indentFrom n start (p ++ []) = _ := indentFrom_line empty line []
      simp only [List.append_nil, indentFrom] at whole
      exact ⟨_, whole.symm⟩
  | cons c s ih =>
    rw [List.cons_append, indentFrom]
    split
    · exact ih.trans (List.suffix_cons _ _)
    · exact (ih.trans (List.suffix_cons _ _)).trans (List.suffix_append _ _)

/-- Up to the next line end an indented text starts as the text does. -/
theorem prefix_of_indentFrom (line : lf ∉ p) (h : p <+: indentFrom n false s) : p <+: s := by
  induction p generalizing s with
  | nil => exact List.nil_prefix
  | cons a p ih =>
    rw [List.mem_cons, not_or] at line
    cases s with
    | nil => exact h
    | cons c s =>
      rw [indentFrom] at h
      split at h
      · exact (line.1 (List.cons_prefix_cons.mp h).1.symm).elim
      · obtain ⟨same, rest⟩ := List.cons_prefix_cons.mp h
        exact List.cons_prefix_cons.mpr ⟨same, ih line.2 rest⟩

end Indent

section Lines
variable {p s t : Bytes}

theorem unifyLines_append (h : t.head? ≠ some lf) :
    unifyLines (s ++ t) = unifyLines s ++ unifyLines t := by
  induction s with
  | nil => rfl
  | cons c s ih =>
    have next : (s ++ t).head? = some lf ↔ s.head? = some lf := by
      cases s with
      | nil => simpa using h
      | cons => rfl
    rw [List.cons_append, unifyLines, unifyLines, ih]
    simp only [next]
    split
    · split <;> rfl
    · rfl

theorem unifyLines_inside (line : cr ∉ p) (s : Bytes) :
    unifyLines (p ++ s) = p ++ unifyLines s := by
  induction p with
  | nil => rfl
  | cons c p ih =>
    rw [List.mem_cons, not_or] at line
    rw [List.cons_append, unifyLines, if_neg (Ne.symm line.1), ih line.2, List.cons_append]

theorem cr_not_mem_unifyLines (s : Bytes) : cr ∉ unifyLines s := by
  induction s with
  | nil => exact List.not_mem_nil
  | cons c s ih =>
    rw [unifyLines]
    split
    · split
      · exact ih
      · exact List.not_mem_cons_of_ne_of_not_mem (by decide) ih
    · rename_i other
      exact List.not_mem_cons_of_ne_of_not_mem (Ne.symm other) ih

/-- Up to the next line end a text with unified line ends starts as the text does. -/
theorem prefix_of_unifyLines (line : lf ∉ p) (h : p <+: unifyLines s) : p <+: s := by
  induction p generalizing s with
  | nil => exact List.nil_prefix
  | cons a p ih =>
    rw [List.mem_cons, not_or] at line
    cases s with
    | nil => exact h
    | cons c s =>
      rw [unifyLines] at h
      split at h
      · split at h
        · rename_i next
          obtain ⟨s, rfl⟩ := List.head?_eq_some_iff.mp next
          rw [unifyLines, if_neg (by decide)] at h
          exact (line.1 (List.cons_prefix_cons.mp h).1.symm).elim
        · exact (line.1 (List.cons_prefix_cons.mp h).1.symm).elim
      · obtain ⟨same, rest⟩ := List.cons_prefix_cons.mp h
        exact List.cons_prefix_cons.mpr ⟨same, ih line.2 rest⟩

end Lines

namespace Rule

/-- The rule replaces something within a line by something within a line. -/
structure Inline (rule : Rule) : Prop where
  pattern : rule.pattern ≠ []
  output : rule.output ≠ []
  reads : lf ∉ rule.pattern ∧ cr ∉ rule.pattern ∧ space ∉ rule.pattern
  writes : lf ∉ rule.output ∧ cr ∉ rule.output

instance (rule : Rule) : Decidable rule.Inline :=
  decidable_of_iff (rule.pattern ≠ [] ∧ rule.output ≠ [] ∧
      (lf ∉ rule.pattern ∧ cr ∉ rule.pattern ∧ space ∉ rule.pattern) ∧
      lf ∉ rule.output ∧ cr ∉ rule.output)
    ⟨fun h => ⟨h.1, h.2.1, h.2.2.1, h.2.2.2⟩, fun h => ⟨h.pattern, h.output, h.reads, h.writes⟩⟩

namespace Replaced
variable {rules more : List Rule} {s s' t t' : Bytes}

/-- Rules whose pattern does not occur may be added. -/
theorem widen (h : Replaced rules s t) (wider : rules ⊆ more)
    (idle : ∀ rule ∈ more, rule ∉ rules → ¬rule.pattern <:+: s) : Replaced more s t := by
  induction h with
  | nil => exact .nil
  | @keep c s t unruled rest ih =>
    refine .keep (fun rule mem begins => ?_) (ih fun rule mem other occurs =>
      idle rule mem other (occurs.trans (List.suffix_cons c s).isInfix))
    by_cases old : rule ∈ rules
    · exact unruled rule old begins
    · exact idle rule mem old begins.isInfix
  | @apply rule s t mem rest ih =>
    exact .apply (wider mem) (ih fun rule' mem' other occurs =>
      idle rule' mem' other (occurs.trans (List.suffix_append _ s).isInfix))

/-- Two replaced texts put together, where no pattern reaches into the second. -/
theorem append (h : Replaced rules s t) (h' : Replaced rules s' t')
    (apart : ∀ rule ∈ rules, ∀ b, s'.head? = some b → b ∉ rule.pattern) :
    Replaced rules (s ++ s') (t ++ t') := by
  induction h with
  | nil => exact h'
  | @keep c s t unruled rest ih =>
    refine .keep (fun rule mem begins => unruled rule mem ?_) ih
    -- a pattern that is longer than the first text holds the first byte of the second
    rcases List.prefix_or_prefix_of_prefix begins (List.prefix_append (c :: s) s') with
      here | ⟨q, longer⟩
    · exact here
    · cases q with
      | nil => rw [← longer, List.append_nil]
      | cons b q =>
        rw [← longer] at begins
        obtain ⟨s'', rfl⟩ := (List.prefix_append_right_inj (c :: s)).mp begins
        exact absurd (by simp [← longer]) (apart rule mem b rfl)
  | @apply rule s t mem rest ih =>
    rw [List.append_assoc, List.append_assoc]
    exact .apply mem ih

variable (inline : ∀ rule ∈ rules, rule.Inline)
include inline

/-- A blank or a line end in front. -/
theorem cons_layout (h : Replaced rules s t) {b : UInt8}
    (layout : ∀ rule ∈ rules, b ∉ rule.pattern) : Replaced rules (b :: s) (b :: t) := by
  refine .keep (fun rule mem begins => ?_) h
  obtain ⟨a, pattern, eq⟩ := List.exists_cons_of_ne_nil (inline rule mem).pattern
  rw [eq] at begins
  refine layout rule mem ?_
  rw [eq, (List.cons_prefix_cons.mp begins).1]
  exact List.mem_cons_self

theorem indent (h : Replaced rules s t) (n : Nat) :
    Replaced rules (Bytes.replicate n space ++ s) (Bytes.replicate n space ++ t) := by
  induction n with
  | zero => exact h
  | succ n ih => exact cons_layout inline ih fun rule mem => (inline rule mem).reads.2.2

/-- A byte stays without a rule if the text behind it is the same up to its next line end. -/
theorem unruled_of {c : UInt8} (unruled : ∀ rule ∈ rules, ¬rule.pattern <+: c :: s)
    (same : ∀ {p : Bytes}, lf ∉ p → p <+: s' → p <+: s) :
    ∀ rule ∈ rules, ¬rule.pattern <+: c :: s' := by
  intro rule mem begins
  have line := (inline rule mem).reads.1
  obtain ⟨a, pattern, eq⟩ := List.exists_cons_of_ne_nil (inline rule mem).pattern
  rw [eq, List.mem_cons, not_or] at line
  rw [eq] at begins
  obtain ⟨first, rest⟩ := List.cons_prefix_cons.mp begins
  exact unruled rule mem (by rw [eq]; exact List.cons_prefix_cons.mpr ⟨first, same line.2 rest⟩)

theorem indentFrom (h : Replaced rules s t) (n : Nat) (start : Bool) :
    Replaced rules (indentFrom n start s) (DomTemplate.indentFrom n start t) := by
  have lead {s t : Bytes} (start : Bool) (h : Replaced rules s t) :
      Replaced rules ((if start then Bytes.replicate n space else []) ++ s)
        ((if start then Bytes.replicate n space else []) ++ t) := by
    cases start
    · exact h
    · exact indent inline h n
  induction h generalizing start with
  | nil => exact .nil
  | @keep c s t unruled rest ih =>
    rw [DomTemplate.indentFrom, DomTemplate.indentFrom]
    split
    · exact cons_layout inline (ih true) fun rule mem => (inline rule mem).reads.1
    · exact lead start (.keep (unruled_of inline unruled fun line => prefix_of_indentFrom line)
        (ih false))
  | @apply rule s t mem rest ih =>
    have line := inline rule mem
    rw [indentFrom_line line.pattern (line.reads.1),
      indentFrom_line line.output (line.writes.1)]
    exact lead start (.apply mem (ih false))

/-- A line starts in a replaced text where one starts in the text. -/
theorem head_lf (h : Replaced rules s t) : t.head? = some lf ↔ s.head? = some lf := by
  cases h with
  | nil => rfl
  | keep => rfl
  | @apply rule s t mem rest =>
    have line := inline rule mem
    obtain ⟨a, pattern, eq⟩ := List.exists_cons_of_ne_nil line.pattern
    obtain ⟨b, output, eq'⟩ := List.exists_cons_of_ne_nil line.output
    have reads := line.reads.1
    have writes := line.writes.1
    rw [eq, List.mem_cons, not_or] at reads
    rw [eq', List.mem_cons, not_or] at writes
    simp [eq, eq', Ne.symm reads.1, Ne.symm writes.1]

theorem unifyLines (h : Replaced rules s t) :
    Replaced rules (unifyLines s) (Markup.unifyLines t) := by
  induction h with
  | nil => exact .nil
  | @keep c s t unruled rest ih =>
    rw [Markup.unifyLines, Markup.unifyLines]
    simp only [head_lf inline rest]
    split
    · split
      · exact ih
      · exact cons_layout inline ih fun rule mem => (inline rule mem).reads.1
    · exact .keep (unruled_of inline unruled fun line => prefix_of_unifyLines line) ih
  | @apply rule s t mem rest ih =>
    have line := inline rule mem
    rw [unifyLines_inside (line.reads.2.1),
      unifyLines_inside (line.writes.2)]
    exact .apply mem ih

end Replaced
end Rule
end DomTemplate
