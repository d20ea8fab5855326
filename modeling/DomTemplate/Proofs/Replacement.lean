import DomTemplate.Text.Replace
import Mathlib.Data.List.Infix

/-! Replacement as a relation. A text is replaced byte by byte: a byte is kept where no rule
applies, and a pattern gives way to its output. What holds of every replaced text is then an
induction on the relation, with no count of bytes to skip. -/

namespace DomTemplate.Rule

/-- The second text is the first with the rules applied. -/
inductive Replaced (rules : List Rule) : Bytes → Bytes → Prop where
  | nil : Replaced rules [] []
  | keep {c : UInt8} {s t : Bytes} (unruled : ∀ rule ∈ rules, ¬rule.pattern <+: c :: s)
      (rest : Replaced rules s t) : Replaced rules (c :: s) (c :: t)
  | apply {rule : Rule} {s t : Bytes} (mem : rule ∈ rules) (rest : Replaced rules s t) :
      Replaced rules (rule.pattern ++ s) (rule.output ++ t)

theorem first?_eq_some {rules : List Rule} {s : Bytes} {rule : Rule}
    (h : first? rules s = some rule) : rule ∈ rules ∧ rule.pattern <+: s := by
  have starts : rule.pattern.isPrefixOf s = true := by simpa using List.find?_some h
  exact ⟨List.mem_of_find?_eq_some h, List.isPrefixOf_iff_prefix.mp starts⟩

theorem first?_eq_none {rules : List Rule} {s : Bytes} (h : first? rules s = none) :
    ∀ rule ∈ rules, ¬rule.pattern <+: s := by
  intro rule mem starts
  exact List.find?_eq_none.mp h rule mem (List.isPrefixOf_iff_prefix.mpr starts)

theorem replaced_applyFrom {rules : List Rule} (nonempty : ∀ rule ∈ rules, rule.pattern ≠ [])
    (skip : Nat) (s : Bytes) : Replaced rules (s.drop skip) (applyFrom rules skip s) := by
  fun_induction applyFrom rules skip s with
  | case1 skip => rw [List.drop_nil]; exact .nil
  | case2 skip c rest ih => exact ih
  | case3 c rest rule found ih =>
    obtain ⟨mem, tail, whole⟩ := first?_eq_some found
    obtain ⟨p, ps, pattern⟩ := List.exists_cons_of_ne_nil (nonempty rule mem)
    -- what is left behind the pattern is where the search goes on
    have left : rest.drop (rule.pattern.length - 1) = tail := by
      rw [pattern, List.cons_append] at whole
      rw [← (List.cons.inj whole).2, pattern]
      simp
    rw [left] at ih
    rw [List.drop_zero, ← whole]
    exact .apply mem ih
  | case4 c rest unruled ih => exact .keep (first?_eq_none unruled) ih

theorem replaced_applyAll {rules : List Rule} (nonempty : ∀ rule ∈ rules, rule.pattern ≠ [])
    (s : Bytes) : Replaced rules s (applyAll rules s) :=
  replaced_applyFrom nonempty 0 s

/-- A byte that the rules take out, and that none of them puts back, is gone. -/
theorem Replaced.not_mem {rules : List Rule} {s t : Bytes} (h : Replaced rules s t)
    {b : UInt8} (taken : ∃ rule ∈ rules, rule.pattern = [b])
    (dropped : ∀ rule ∈ rules, b ∉ rule.output) : b ∉ t := by
  induction h with
  | nil => exact List.not_mem_nil
  | @keep c s t unruled rest ih =>
    have unlike : b ≠ c := by
      rintro rfl
      obtain ⟨rule, mem, pattern⟩ := taken
      exact unruled rule mem ⟨s, by rw [pattern]; rfl⟩
    exact List.not_mem_cons_of_ne_of_not_mem unlike ih
  | @apply rule s t mem rest ih =>
    simpa using ⟨dropped rule mem, ih⟩

end DomTemplate.Rule
