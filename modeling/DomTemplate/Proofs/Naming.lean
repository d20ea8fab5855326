import DomTemplate.Intent.Naming
import Mathlib.Data.List.TakeWhile
import Mathlib.Data.List.Infix

/-! Element names tell elements apart. A name can be read back into the stem and the number
that it is made of, because the digits of the number hold no underscore; and a stem that is
named again gets a higher number. -/

namespace DomTemplate
open Ascii

namespace Bytes

theorem toNat_digit {d : Nat} (small : d < 10) : (zero + d.toUInt8).toNat = 48 + d := by
  have base : (zero : UInt8).toNat = 48 := rfl
  simp only [UInt8.toNat_add, Nat.toUInt8, UInt8.toNat_ofNat']
  omega

theorem isDigit_digit {d : Nat} (small : d < 10) : isDigit (zero + d.toUInt8) = true := by
  have value := toNat_digit small
  simp only [isDigit, Bool.and_eq_true, decide_eq_true_eq, UInt8.le_iff_toNat_le, value]
  constructor
  · show 48 ≤ _
    omega
  · show _ ≤ 57
    omega

theorem isDigit_of_mem_decimal {n : Nat} {b : UInt8} (h : b ∈ decimal n) : isDigit b = true := by
  fun_induction decimal n with
  | case1 n small =>
    rw [List.mem_singleton] at h
    rw [h]
    exact isDigit_digit small
  | case2 n large ih =>
    rw [List.mem_append, List.mem_singleton] at h
    rcases h with h | h
    · exact ih h
    · rw [h]
      exact isDigit_digit (Nat.mod_lt _ (by decide))

theorem decimal_ne_nil (n : Nat) : decimal n ≠ [] := by
  rw [decimal]
  split <;> simp

/-- The decimal digits of a number read back as that number. -/
theorem digits?_decimal (n : Nat) : digits? (decimal n) = some n := by
  have nonempty : (decimal n).isEmpty = false := by simpa using decimal_ne_nil n
  have digits : (decimal n).all isDigit = true :=
    List.all_eq_true.mpr fun b => isDigit_of_mem_decimal
  have base : (zero : UInt8).toNat = 48 := rfl
  simp only [digits?, nonempty, digits, Bool.not_true, Bool.or_false, Bool.false_eq_true, if_false,
    Option.some.injEq]
  clear nonempty digits
  fun_induction decimal n with
  | case1 n small =>
    simp only [List.foldl_cons, List.foldl_nil, toNat_digit small]
    omega
  | case2 n large ih =>
    rw [List.foldl_append, ih]
    simp only [List.foldl_cons, List.foldl_nil, toNat_digit (Nat.mod_lt n (by decide : 0 < 10))]
    omega

theorem decimal_injective : Function.Injective decimal := by
  intro m n h
  have value := digits?_decimal m
  rw [h, digits?_decimal] at value
  exact (Option.some.inj value).symm

theorem decimal_no_underscore (n : Nat) : ∀ b ∈ (decimal n).reverse, (b != underscore) = true := by
  intro b h
  have digit := isDigit_of_mem_decimal (List.mem_reverse.mp h)
  simp only [bne_iff_ne]
  rintro rfl
  exact absurd digit (by decide)

end Bytes

/-- A name gives back the stem and the number that it was made of. -/
theorem elementName_split {elementPrefix stem stem' : Bytes} {issued issued' : List Bytes}
    (h : elementName elementPrefix issued stem = elementName elementPrefix issued' stem') :
    stem = stem' ∧ issued.count stem = issued'.count stem' := by
  simp only [elementName, List.append_assoc, List.append_cancel_left_eq] at h
  -- read from the right, each side is digits up to the first underscore
  have reversed := congrArg List.reverse h
  simp only [List.reverse_append, List.reverse_cons, List.nil_append,
    List.append_assoc, List.cons_append] at reversed
  have digits := congrArg (List.takeWhile (· != underscore)) reversed
  have rest := congrArg (List.dropWhile (· != underscore)) reversed
  simp only [List.takeWhile_append_of_pos (Bytes.decimal_no_underscore _),
    List.dropWhile_append_of_pos (Bytes.decimal_no_underscore _),
    List.takeWhile_cons, List.dropWhile_cons, bne_self_eq_false, Bool.false_eq_true, if_false,
    List.append_nil, List.reverse_inj, List.cons.injEq, true_and] at digits rest
  exact ⟨rest, Nat.succ.inj (Bytes.decimal_injective digits)⟩

/-- An element gets another name than every element named before it. -/
theorem elementName_fresh {elementPrefix stem stem' : Bytes} {issued issued' : List Bytes}
    (later : stem :: issued <:+ issued') :
    elementName elementPrefix issued' stem' ≠ elementName elementPrefix issued stem := by
  intro h
  obtain ⟨rfl, count⟩ := elementName_split h
  have more := later.sublist.count_le stem'
  rw [List.count_cons_self] at more
  omega

end DomTemplate
