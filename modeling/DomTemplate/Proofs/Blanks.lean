import DomTemplate.Proofs.Cutting
import DomTemplate.Text.Blank

/-! Blank texts. A text is blank when it is a row of white space characters. No character's
encoding starts or ends with that of another, so a row may be taken off from either end, and
a blank text at an end of another does not decide whether the whole is blank. -/

namespace DomTemplate.Bytes
open Ascii

/-- A row of members of `set`. -/
inductive Row (set : List Bytes) : Bytes → Prop where
  | nil : Row set []
  | cons {a s : Bytes} (member : a ∈ set) (rest : Row set s) : Row set (a ++ s)

/-- No member of `set` is empty or starts with another one. -/
def PrefixFree (set : List Bytes) : Prop :=
  [] ∉ set ∧ ∀ a ∈ set, ∀ b ∈ set, a <+: b → a = b

theorem prefixFree_blanks : PrefixFree blanks := by
  unfold PrefixFree
  decide +kernel

theorem prefixFree_reversed : PrefixFree (blanks.map List.reverse) := by
  unfold PrefixFree
  decide +kernel

variable {set : List Bytes} {r s t : Bytes}

namespace Row

theorem single (member : s ∈ set) : Row set s := by
  have row := Row.cons member .nil
  rwa [List.append_nil] at row

theorem append (hs : Row set s) (ht : Row set t) : Row set (s ++ t) := by
  induction hs with
  | nil => exact ht
  | cons member _ ih =>
    rw [List.append_assoc]
    exact .cons member ih

theorem reverse (h : Row set s) : Row (set.map List.reverse) s.reverse := by
  induction h with
  | nil => exact .nil
  | cons member _ ih =>
    rw [List.reverse_append]
    exact ih.append (.single (List.mem_map_of_mem member))

end Row

theorem row_reverse : Row (set.map List.reverse) s.reverse ↔ Row set s := by
  constructor
  · intro h
    simpa using h.reverse
  · exact Row.reverse

theorem afterLeading?_member {a : Bytes} (free : PrefixFree set) (member : a ∈ set) (s : Bytes) :
    afterLeading? set (a ++ s) = some s := by
  have taken : dropPrefix? a (a ++ s) = some s := dropPrefix?_eq_some.mpr rfl
  cases found : afterLeading? set (a ++ s) with
  | none => simp [List.findSome?_eq_none_iff.mp found a member] at taken
  | some rest =>
    obtain ⟨b, other, dropped⟩ := List.exists_of_findSome?_eq_some found
    have split := dropPrefix?_eq_some.mp dropped
    have same : a = b := by
      rcases List.prefix_or_prefix_of_prefix ⟨s, rfl⟩ ⟨rest, split.symm⟩ with starts | starts
      · exact free.2 a member b other starts
      · exact (free.2 b other a member starts).symm
    subst same
    rw [List.append_cancel_left split]

theorem dropLeading_row (free : PrefixFree set) (row : Row set r) (s : Bytes) :
    dropLeading set (r ++ s) = dropLeading set s := by
  induction row with
  | nil => rfl
  | @cons a r member _ ih =>
    have nonempty : 0 < a.length := List.length_pos_iff.mpr fun empty => free.1 (empty ▸ member)
    rw [List.append_assoc, dropLeading, afterLeading?_member free member]
    simp only [List.length_append]
    rw [if_pos (by omega), ih]

theorem exists_row_dropLeading (set : List Bytes) (s : Bytes) :
    ∃ row, Row set row ∧ s = row ++ dropLeading set s := by
  fun_induction dropLeading set s with
  | case1 s rest found shorter ih =>
    obtain ⟨a, member, dropped⟩ := List.exists_of_findSome?_eq_some found
    obtain ⟨row, isRow, split⟩ := ih
    refine ⟨a ++ row, .cons member isRow, ?_⟩
    rw [List.append_assoc, ← split]
    exact dropPrefix?_eq_some.mp dropped
  | case2 | case3 => exact ⟨[], .nil, rfl⟩

theorem dropLeading_eq_nil (free : PrefixFree set) : dropLeading set s = [] ↔ Row set s := by
  constructor
  · intro empty
    obtain ⟨row, isRow, split⟩ := exists_row_dropLeading set s
    rw [empty, List.append_nil] at split
    exact split ▸ isRow
  · intro row
    have dropped := dropLeading_row free row []
    rw [List.append_nil] at dropped
    rw [dropped]
    unfold dropLeading
    split
    · rw [if_neg (by simp)]
    · rfl

theorem trimRight_eq_nil : trimRight s = [] ↔ Row blanks s := by
  rw [trimRight, List.reverse_eq_nil_iff, dropLeading_eq_nil prefixFree_reversed, row_reverse]

theorem isBlank_iff : isBlank s = true ↔ Row blanks s := by
  rw [isBlank, List.isEmpty_iff, trim, trimRight_eq_nil]
  constructor
  · intro inner
    obtain ⟨row, isRow, split⟩ := exists_row_dropLeading blanks s
    rw [split]
    exact isRow.append inner
  · intro row
    rw [trimLeft, (dropLeading_eq_nil prefixFree_blanks).mpr row]
    exact .nil

theorem isBlank_append_left (blank : isBlank s = true) (t : Bytes) :
    isBlank (s ++ t) = isBlank t := by
  rw [Bool.eq_iff_iff, isBlank_iff, isBlank_iff, ← dropLeading_eq_nil prefixFree_blanks,
    ← dropLeading_eq_nil prefixFree_blanks, dropLeading_row prefixFree_blanks (isBlank_iff.mp blank)]

theorem isBlank_append_right (s : Bytes) (blank : isBlank t = true) :
    isBlank (s ++ t) = isBlank s := by
  rw [Bool.eq_iff_iff, isBlank_iff, isBlank_iff, ← trimRight_eq_nil, ← trimRight_eq_nil,
    trimRight, trimRight, List.reverse_append,
    dropLeading_row prefixFree_reversed (isBlank_iff.mp blank).reverse]

/-- The white space of ASCII is white space. -/
theorem isBlank_of_forall (ascii : ∀ b ∈ s, Ascii.isBlank b = true) : isBlank s = true := by
  have listed : ∀ b : UInt8, Ascii.isBlank b = true → [b] ∈ blanks :=
    forall_byte (by decide +kernel)
  rw [isBlank_iff]
  induction s with
  | nil => exact .nil
  | cons b s ih =>
    rw [List.forall_mem_cons] at ascii
    exact .cons (listed b ascii.1) (ih ascii.2)

end DomTemplate.Bytes
