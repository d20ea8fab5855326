import DomTemplate.Proofs.Marks

/-! Character references and marks. What a reference stands for is no part of a mark, unless
it is a numeric reference to a character that marks are made of. A text without references to
the opening one stays well marked when line ends are unified, NUL is replaced and references are
decoded. -/

namespace DomTemplate
open Ascii Markup

/-- The reserved characters with their numbers. -/
inductive MarkCharacter : Bytes → CodePoint → Prop where
  | opening : MarkCharacter markOpen 0xE000
  | closing : MarkCharacter markClose 0xE001

theorem MarkCharacter.mem {sub : Bytes} {k : CodePoint} (char : MarkCharacter sub k) :
    sub ∈ reserved := by
  cases char <;> simp [reserved]

theorem not_mem_tail {sub : Bytes} (mem : sub ∈ reserved) {b : UInt8} (other : b ≠ 0x80 ∧ b ≠ 0x81) :
    b ∉ sub.tail := by
  simp only [reserved, List.mem_cons, List.not_mem_nil, or_false] at mem
  rcases mem with rfl | rfl <;> simp [markOpen, markClose, other]

namespace CodePoint

theorem toNat_trail (n : Nat) : (trail n).toNat = 0x80 + n % 0x40 := by
  simp only [trail, Nat.toUInt8, UInt8.toNat_ofNat']
  omega

theorem le_of_isScalar {r : Nat} (h : isScalar r = true) : r ≤ 0x10FFFF := by
  simp only [isScalar, Bool.and_eq_true, decide_eq_true_eq] at h
  exact h.1

theorem trail_ne (n : Nat) : trail n ≠ 0xEE := by
  intro same
  have value := toNat_trail n
  rw [same] at value
  change 238 = _ at value
  omega

theorem toUInt8_ne {n m : Nat} (small : n < 256) (fits : m < 256) (differs : n ≠ m) :
    n.toUInt8 ≠ m.toUInt8 := by
  intro same
  have value := congrArg UInt8.toNat same
  simp only [Nat.toUInt8, UInt8.toNat_ofNat'] at value
  omega

/-- The UTF-8 form of another character than a reserved one. -/
theorem inert_encode {sub : Bytes} {k r : Nat} (char : MarkCharacter sub k) (other : r ≠ k) :
    Inert sub (encode r) := by
  have head {n : Nat} (small : n < 256) (differs : n ≠ 0x80 ∧ n ≠ 0x81) : n.toUInt8 ∉ sub.tail :=
    not_mem_tail char.mem
      ⟨toUInt8_ne small (by decide) differs.1, toUInt8_ne small (by decide) differs.2⟩
  have single {n : Nat} {bs : Bytes} (small : n < 256) (differs : (n ≠ 0x80 ∧ n ≠ 0x81) ∧ n ≠ 0xEE)
      (more : ∀ b ∈ bs, b ≠ 0xEE) : Inert sub (n.toUInt8 :: bs) := by
    refine ⟨unopened_of_forall char.mem ?_, _, _, rfl, head small differs.1⟩
    exact List.forall_mem_cons.mpr ⟨toUInt8_ne small (by decide) differs.2, more⟩
  rw [encode]
  by_cases ascii : r < 0x80
  · rw [if_pos ascii]
    exact single (by omega) (by omega) (by simp)
  rw [if_neg ascii]
  by_cases two : r < 0x800
  · rw [if_pos two]
    exact single (by omega) (by omega) (by simp [trail_ne])
  rw [if_neg two]
  by_cases scalar : isScalar r = true
  · rw [scalar, if_neg (by simp)]
    by_cases three : r < 0x10000
    · rw [if_pos three]
      refine ⟨fun rest tail opens => ?_, _, _, rfl, head (by omega) (by omega)⟩
      rcases List.suffix_cons_iff.mp opens with same | later
      · -- the three bytes would spell the one character that is left out
        exfalso
        cases char <;>
        · have first := congrArg UInt8.toNat (List.cons.inj same).1
          have second := congrArg UInt8.toNat (List.cons.inj (List.cons.inj same).2).1
          have third :=
            congrArg UInt8.toNat (List.cons.inj (List.cons.inj (List.cons.inj same).2).2).1
          simp only [Nat.toUInt8, UInt8.toNat_ofNat', toNat_trail] at first second third
          simp only [UInt8.reduceToNat] at first second third
          omega
      · refine unopened_of_forall (s := [trail (r / 0x40), trail r]) char.mem ?_ _ _ later
        simp [trail_ne]
    · rw [if_neg three]
      have bound := le_of_isScalar scalar
      exact single (by omega) (by omega) (by simp [trail_ne])
  · rw [if_pos (by simpa using scalar)]
    refine ⟨unopened_of_forall char.mem (by decide +kernel), _, _, rfl, ?_⟩
    exact not_mem_tail char.mem (by decide)

theorem encode_ne_nil (r : CodePoint) : encode r ≠ [] := by
  rw [encode]
  split_ifs <;> exact List.cons_ne_nil _ _

end CodePoint

namespace Markup.Entity

/-- The number that the text after an ampersand refers to; zero if it is no number. -/
def referenceNumber : Bytes → Nat
  | a :: b :: body =>
    if a = sharp then
      if lower b = lowerX then (number hexValue? 16 0 body).1
      else (number decimalDigit? 10 0 (b :: body)).1
    else 0
  | _ => 0

/-- Some numeric reference in the text is to the character that opens marks. -/
def refersToMark : Bytes → Bool
  | [] => false
  | c :: cs => (c == amp && referenceNumber cs == 0xE000) || refersToMark cs

/-- Some numeric reference in the text is to the character `k`. -/
def refersTo (k : CodePoint) : Bytes → Bool
  | [] => false
  | c :: cs => (c == amp && referenceNumber cs == k) || refersTo k cs

theorem refersToMark_eq (s : Bytes) : refersToMark s = refersTo 0xE000 s := by
  induction s with
  | nil => rfl
  | cons c cs ih => rw [refersToMark, refersTo, ih]

theorem refersTo_iff {k : CodePoint} {s : Bytes} :
    refersTo k s = true ↔ ∃ rest, amp :: rest <:+ s ∧ referenceNumber rest = k := by
  induction s with
  | nil => simp [refersTo]
  | cons c cs ih =>
    simp only [refersTo, Bool.or_eq_true, Bool.and_eq_true, beq_iff_eq, ih,
      List.suffix_cons_iff, List.cons.injEq]
    constructor
    · rintro (⟨rfl, found⟩ | ⟨rest, later, found⟩)
      · exact ⟨cs, .inl ⟨rfl, rfl⟩, found⟩
      · exact ⟨rest, .inr later, found⟩
    · rintro ⟨rest, ⟨rfl, rfl⟩ | later, found⟩
      · exact .inl ⟨rfl, found⟩
      · exact .inr ⟨rest, later, found⟩

theorem refersTo_suffix {k : CodePoint} {s t : Bytes} (clean : refersTo k s = false) (h : t <:+ s) :
    refersTo k t = false := by
  rw [Bool.eq_false_iff, Ne, refersTo_iff] at clean ⊢
  rintro ⟨rest, ends, found⟩
  exact clean ⟨rest, ends.trans h, found⟩

theorem ofNumber_ne {sub : Bytes} {n k : Nat} (char : MarkCharacter sub k) (other : n ≠ k) :
    ofNumber n ≠ k := by
  have table : ∀ r ∈ windows1252, r ≠ 0xE000 ∧ r ≠ 0xE001 := by decide
  have listed : ∀ r ∈ windows1252, r ≠ k := by
    cases char
    · exact fun r mem => (table r mem).1
    · exact fun r mem => (table r mem).2
  have replaced : CodePoint.replacement ≠ k := by cases char <;> decide
  unfold ofNumber
  split
  · rw [List.getD_eq_getElem?_getD]
    cases entry : windows1252[n - 0x80]? with
    | none => exact replaced
    | some r => exact listed r (List.mem_of_getElem? entry)
  · split_ifs
    · exact replaced
    · exact other
    · exact replaced

theorem unreserved_names :
    ∀ entry ∈ names, entry.2 ≠ [] ∧ ∀ r ∈ entry.2, r ≠ 0xE000 ∧ r ≠ 0xE001 := by
  unfold names
  -- a letter at a time: to walk the whole list is to undo its appends at every entry
  iterate 25 refine List.forall_mem_append.mpr ⟨?_, by decide +kernel⟩
  decide +kernel

/-- A bare name is the front of a longer one, and listed itself. -/
theorem bare?_eq_some {name text : Bytes} {n width : Nat} (h : bare? name n = some (text, width)) :
    width ≤ n ∧ lookup? (name.take width) = some text := by
  fun_induction bare? name n with
  | case1 | case2 => cases h
  | case3 n text' found => cases h; exact ⟨Nat.le_refl _, found⟩
  | case4 n missing ih => exact ⟨Nat.le_succ_of_le (ih h).1, (ih h).2⟩

/-- A reference is a number in one of two bases, or the front of a name that is listed. -/
theorem reference?_cases {rest text : Bytes} {width : Nat}
    (h : reference? rest = some (text, width)) :
    (∃ a b body after, rest = sharp :: a :: b :: body ∧ width = rest.length - after.length ∧
      (if lower a = lowerX then numeric? true 3 (b :: body) else numeric? false 2 (a :: b :: body)) =
        some (text, after)) ∨
    width ≤ (nameOf rest).length ∧ lookup? ((nameOf rest).take width) = some text := by
  rw [reference?] at h
  split at h
  · rename_i numeric
    obtain ⟨tail, rfl⟩ := List.head?_eq_some_iff.mp numeric
    obtain ⟨⟨_, after⟩, found, same⟩ := Option.map_eq_some_iff.mp h
    cases same
    rcases tail with _ | ⟨a, _ | ⟨b, body⟩⟩
    · cases found
    · cases found
    · exact .inl ⟨a, b, body, after, rfl, rfl, found⟩
  · rw [namedReference?] at h
    obtain ⟨-, h⟩ := Option.ite_none_left_eq_some.mp h
    right
    split at h
    · rename_i found
      cases h
      exact ⟨Nat.le_refl _, by rwa [List.take_length]⟩
    · obtain ⟨short, found⟩ := bare?_eq_some h
      exact ⟨by omega, found⟩

section Inert
variable {sub : Bytes} {k : Nat} (char : MarkCharacter sub k)
include char

theorem inert_lookup? {name text : Bytes} (h : lookup? name = some text) : Inert sub text := by
  obtain ⟨entry, found, rfl⟩ := Option.map_eq_some_iff.mp h
  obtain ⟨nonempty, listed⟩ := unreserved_names entry (List.mem_of_find?_eq_some found)
  have other : ∀ r ∈ entry.2, r ≠ k := by
    cases char
    · exact fun r mem => (listed r mem).1
    · exact fun r mem => (listed r mem).2
  clear listed
  generalize entry.2 = points at nonempty other
  cases points with
  | nil => exact absurd rfl nonempty
  | cons r points =>
    rw [List.forall_mem_cons] at other
    have first := CodePoint.inert_encode char other.1
    obtain ⟨b, bs, encoded, differs⟩ := first.head
    refine ⟨?_, b, bs ++ points.flatMap CodePoint.encode, by simp [encoded], differs⟩
    rw [List.flatMap_cons]
    refine first.opens.append ?_
    clear nonempty first
    induction points with
    | nil => exact unopened_of_forall char.mem (by simp)
    | cons q points ih =>
      rw [List.forall_mem_cons] at other
      exact (CodePoint.inert_encode char other.2.1).opens.append (ih ⟨other.1, other.2.2⟩)

theorem inert_numeric? {hex : Bool} {width : Nat} {body text rest : Bytes}
    (other : (if hex then number hexValue? 16 0 body else number decimalDigit? 10 0 body).1 ≠ k)
    (h : numeric? hex width body = some (text, rest)) : Inert sub text := by
  rw [numeric?] at h
  generalize (if hex then number hexValue? 16 0 body else number decimalDigit? 10 0 body) = read
    at other h
  obtain ⟨value, after⟩ := read
  dsimp only at h
  by_cases short : width + body.length -
      (if after.head? = some semicolon then after.drop 1 else after).length ≤ 3
  · rw [if_pos short] at h
    cases h
  · rw [if_neg short] at h
    cases h
    exact CodePoint.inert_encode char (ofNumber_ne char other)

/-- What a reference stands for is no part of a mark, if it does not name one. -/
theorem inert_reference? {rest text : Bytes} {width : Nat} (other : referenceNumber rest ≠ k)
    (h : reference? rest = some (text, width)) : Inert sub text := by
  obtain ⟨a, b, body, after, rfl, -, found⟩ | ⟨-, found⟩ := reference?_cases h
  · rw [referenceNumber, if_pos rfl] at other
    split_ifs at found other with hex
    · exact inert_numeric? char (by simpa using other) found
    · exact inert_numeric? char (by simpa using other) found
  · exact inert_lookup? char found

end Inert

theorem number_taken (digit? : UInt8 → Option Nat) (base value : Nat) (s : Bytes) :
    ∃ digits, s = digits ++ (number digit? base value s).2 ∧ ∀ b ∈ digits, digit? b ≠ none := by
  induction s generalizing value with
  | nil => exact ⟨[], rfl, by simp⟩
  | cons c s ih =>
    rw [number]
    cases digit : digit? c with
    | none => exact ⟨[], rfl, by simp⟩
    | some n =>
      obtain ⟨digits, split, all⟩ := ih ((base * value + n) % 0x100000000)
      refine ⟨c :: digits, congrArg (c :: ·) split, List.forall_mem_cons.mpr ⟨?_, all⟩⟩
      simp [digit]

theorem spares_numeric? {hex : Bool} {width : Nat} {body text rest : Bytes}
    (h : numeric? hex width body = some (text, rest)) :
    ∃ taken, body = taken ++ rest ∧ ∀ b ∈ taken, b ≠ 0xEE := by
  have digits : ∃ taken, body = taken ++
      (if hex then number hexValue? 16 0 body else number decimalDigit? 10 0 body).2 ∧
      ∀ b ∈ taken, b ≠ 0xEE := by
    have plain : ∀ b, hexValue? b ≠ none ∨ decimalDigit? b ≠ none → b ≠ 0xEE :=
      Bytes.forall_byte (by decide +kernel)
    split
    · obtain ⟨taken, split, all⟩ := number_taken hexValue? 16 0 body
      exact ⟨taken, split, fun b mem => plain b (.inl (all b mem))⟩
    · obtain ⟨taken, split, all⟩ := number_taken decimalDigit? 10 0 body
      exact ⟨taken, split, fun b mem => plain b (.inr (all b mem))⟩
  rw [numeric?] at h
  obtain ⟨taken, split, all⟩ := digits
  generalize (if hex then number hexValue? 16 0 body else number decimalDigit? 10 0 body) = read
    at split h
  obtain ⟨value, after⟩ := read
  dsimp only at h split
  split_ifs at h with closed short short
  · cases h
    obtain ⟨tail, rfl⟩ := List.head?_eq_some_iff.mp closed
    refine ⟨taken ++ [semicolon], by simp [split], List.forall_mem_append.mpr ⟨all, ?_⟩⟩
    exact List.forall_mem_singleton.mpr (by decide)
  · cases h
    exact ⟨taken, split, all⟩

theorem nameOf_prefix (s : Bytes) : nameOf s <+: s := by
  have letters : s.takeWhile isAlphanumeric <+: s := List.takeWhile_prefix _
  rw [nameOf]
  split
  · rename_i ended
    obtain ⟨tail, left⟩ := List.head?_eq_some_iff.mp ended
    obtain ⟨more, split⟩ := letters
    rw [← split, List.drop_left' (by rw [split])] at left
    exact ⟨tail, by rw [List.append_assoc, List.singleton_append, ← left, split]⟩
  · exact letters

/-- A reference is written in letters, digits and punctuation, none of which opens a mark. -/
theorem spares_reference? {rest text : Bytes} {width : Nat}
    (h : reference? rest = some (text, width)) : ∀ b ∈ rest.take width, b ≠ 0xEE := by
  obtain ⟨a, b, body, after, rfl, rfl, found⟩ | ⟨fits, -⟩ := reference?_cases h
  · obtain ⟨taken, split, all⟩ :
        ∃ taken, a :: b :: body = taken ++ after ∧ ∀ b ∈ taken, b ≠ 0xEE := by
      split at found
      · rename_i hex
        obtain ⟨taken, split, all⟩ := spares_numeric? found
        have letter : ∀ a, lower a = lowerX → a ≠ 0xEE := Bytes.forall_byte (by decide +kernel)
        exact ⟨a :: taken, congrArg (a :: ·) split, List.forall_mem_cons.mpr ⟨letter a hex, all⟩⟩
      · exact spares_numeric? found
    have width : (sharp :: (taken ++ after)).length - after.length = (sharp :: taken).length := by
      simp
      omega
    rw [split, width, ← List.cons_append, List.take_left']
    · exact List.forall_mem_cons.mpr ⟨by decide, all⟩
    · rfl
  · have letter : ∀ b, isAlphanumeric b = true → b ≠ 0xEE := Bytes.forall_byte (by decide +kernel)
    have letters : ∀ b ∈ rest.takeWhile isAlphanumeric, b ≠ 0xEE := fun b mem =>
      letter b (List.mem_takeWhile_imp mem)
    have named : ∀ b ∈ nameOf rest, b ≠ 0xEE := by
      rw [nameOf]
      split
      · exact List.forall_mem_append.mpr ⟨letters, List.forall_mem_singleton.mpr (by decide)⟩
      · exact letters
    obtain ⟨more, split⟩ := nameOf_prefix rest
    rw [← split, List.take_append_of_le_length fits]
    exact fun b mem => named b (List.mem_of_mem_take mem)

theorem decodeFrom_drop (drop keep : Nat) (s : Bytes) :
    decodeFrom drop keep s = decodeFrom 0 keep (s.drop drop) := by
  induction drop generalizing s with
  | zero => rfl
  | succ drop ih =>
    cases s with
    | nil => simp [decodeFrom]
    | cons c cs => rw [decodeFrom, ih, List.drop_succ_cons]

/-- The characters `subs` are reserved ones, and no reference in `s` is to one of them. -/
def Unnamed (subs : List Bytes) (s : Bytes) : Prop :=
  ∀ sub ∈ subs, ∃ k, MarkCharacter sub k ∧ refersTo k s = false

theorem unnamed_opening {s : Bytes} (clean : refersToMark s = false) : Unnamed [markOpen] s :=
  List.forall_mem_singleton.mpr ⟨_, .opening, refersToMark_eq s ▸ clean⟩

theorem Unnamed.suffix {subs : List Bytes} {s t : Bytes} (clean : Unnamed subs s) (h : t <:+ s) :
    Unnamed subs t := by
  intro sub mem
  obtain ⟨k, char, absent⟩ := clean sub mem
  exact ⟨k, char, refersTo_suffix absent h⟩

/-- Decoding replaces references that name no mark, and copies the rest. -/
theorem patched_decodeFrom {subs : List Bytes} {s : Bytes} (clean : Unnamed subs s) (drop keep : Nat) :
    Patched (Harmless subs) (s.drop drop) (decodeFrom drop keep s) := by
  fun_induction decodeFrom drop keep s with
  | case1 drop keep => rw [List.drop_nil]; exact .nil
  | case2 drop keep c cs ih => exact ih (clean.suffix (List.suffix_cons _ _))
  | case3 keep c cs ih => exact .copy c (ih (clean.suffix (List.suffix_cons _ _)))
  | case4 cs text width reference ih =>
    have inert : ∀ sub ∈ subs, Inert sub text := by
      intro sub mem
      obtain ⟨k, char, absent⟩ := clean sub mem
      refine inert_reference? char (fun same => ?_) reference
      simp [refersTo, same] at absent
    -- decoding goes on behind the bytes of the reference
    have split : amp :: cs = (amp :: cs.take width) ++ cs.drop width := by simp
    rw [List.drop_zero, split]
    refine .patch ⟨inert, ⟨_, _, rfl, by decide⟩, ?_⟩ (ih (clean.suffix (List.suffix_cons _ _)))
    exact List.forall_mem_cons.mpr ⟨by decide, spares_reference? reference⟩
  | case5 cs missing ih => exact .copy amp (ih (clean.suffix (List.suffix_cons _ _)))
  | case6 c cs other ih => exact .copy c (ih (clean.suffix (List.suffix_cons _ _)))

theorem number_append {digit? : UInt8 → Option Nat} {base value : Nat} {s u : Bytes}
    (stops : (∀ b, u.head? = some b → digit? b = none) ∨ ∃ b ∈ s, digit? b = none) :
    (number digit? base value (s ++ u)).1 = (number digit? base value s).1 := by
  induction s generalizing value with
  | nil =>
    cases u with
    | nil => rfl
    | cons b u =>
      rcases stops with next | ⟨b, mem, -⟩
      · simp only [List.nil_append, number, next b rfl]
      · cases mem
  | cons c s ih =>
    rw [List.cons_append, number, number]
    cases digit : digit? c with
    | none => rfl
    | some d =>
      refine ih (stops.imp_right ?_)
      rintro ⟨b, mem, none⟩
      rcases List.mem_cons.mp mem with rfl | mem
      · rw [digit] at none
        cases none
      · exact ⟨b, mem, none⟩

theorem digit_boundary (b : UInt8) :
    isBoundary b = true → hexValue? b = none ∧ decimalDigit? b = none := by
  revert b
  exact Bytes.forall_byte (by decide +kernel)

theorem Ends.stops {s u : Bytes} (ends : Ends s u) {digit? : UInt8 → Option Nat}
    (outside : ∀ b, isBoundary b = true → digit? b = none) :
    (∀ b, u.head? = some b → digit? b = none) ∨ ∃ b ∈ s, digit? b = none := by
  rcases ends with next | ⟨b, final, boundary⟩
  · exact .inl fun b head => outside b (next b head)
  · exact .inr ⟨b, List.mem_of_getLast? final, outside b boundary⟩

/-- A number is not read over the end of a slice. -/
theorem referenceNumber_append {rest u : Bytes} (ends : Ends rest u)
    (found : referenceNumber rest ≠ 0) : referenceNumber (rest ++ u) = referenceNumber rest := by
  rcases rest with _ | ⟨a, _ | ⟨b, body⟩⟩
  · exact absurd rfl found
  · exact absurd rfl found
  · rw [referenceNumber] at found
    rw [List.cons_append, List.cons_append, referenceNumber, referenceNumber]
    split_ifs at found ⊢ with numeric hex
    · cases body with
      | nil => exact absurd rfl found
      | cons c body =>
        have inner := ends.of_append [a, b] (List.cons_ne_nil _ _)
        exact number_append (Ends.stops inner fun b h => (digit_boundary b h).1)
    · have inner := ends.of_append [a] (List.cons_ne_nil _ _)
      exact number_append (s := b :: body)
        (Ends.stops inner fun b h => (digit_boundary b h).2)
    · exact absurd rfl found

theorem refersTo_slice {k : CodePoint} {s t : Bytes} (nonzero : k ≠ 0) (clean : refersTo k s = false)
    (slice : Slice t s) : refersTo k t = false := by
  rw [Bool.eq_false_iff, Ne, refersTo_iff] at clean ⊢
  rintro ⟨rest, ⟨front, rfl⟩, rfl⟩
  obtain ⟨before, after, rfl, ends⟩ := slice
  have nonempty : rest ≠ [] := by rintro rfl; exact nonzero rfl
  have inner : Ends rest after := Ends.of_append (front ++ [amp]) (by simpa using ends) nonempty
  exact clean ⟨rest ++ after, ⟨before ++ front, by simp⟩, referenceNumber_append inner nonzero⟩

theorem Unnamed.slice {subs : List Bytes} {s t : Bytes} (clean : Unnamed subs s)
    (slice : Slice t s) : Unnamed subs t := by
  intro sub mem
  obtain ⟨k, char, absent⟩ := clean sub mem
  exact ⟨k, char, refersTo_slice (by cases char <;> decide) absent slice⟩

theorem refersToMark_slice {s t : Bytes} (clean : refersToMark s = false) (slice : Slice t s) :
    refersToMark t = false := by
  rw [refersToMark_eq] at clean ⊢
  exact refersTo_slice (by decide) clean slice

def isReferenceByte (b : UInt8) : Bool := isAlphanumeric b || b == amp || b == sharp

/-- A replacement outside marks and references. -/
structure Quiet (old new : Bytes) : Prop extends Harmless reserved old new where
  outside : ∀ b ∈ old ++ new, isReferenceByte b = false

theorem Quiet.of_bytes {a b : UInt8} {as bs : Bytes} (first : isMarkByte a = false)
    (spares : ∀ x ∈ a :: as, x ≠ 0xEE) (bytes : ∀ x ∈ b :: bs, x ≠ 0xEE ∧ x ≠ 0x80 ∧ x ≠ 0x81)
    (outside : ∀ x ∈ (a :: as) ++ (b :: bs), isReferenceByte x = false) :
    Quiet (a :: as) (b :: bs) where
  inert := fun _ mem => ⟨unopened_of_forall mem fun x inside => (bytes x inside).1,
    b, bs, rfl, not_mem_tail mem (bytes b List.mem_cons_self).2⟩
  starts := ⟨a, as, rfl, first⟩
  spares := spares
  outside := outside

theorem refersTo_append {s : Bytes} (absent : amp ∉ s) (k : CodePoint) (t : Bytes) :
    refersTo k (s ++ t) = refersTo k t := by
  induction s with
  | nil => rfl
  | cons c s ih =>
    rw [List.mem_cons, not_or] at absent
    have other : (c == amp) = false := beq_eq_false_iff_ne.mpr (Ne.symm absent.1)
    rw [List.cons_append, refersTo, other, Bool.false_and, Bool.false_or, ih absent.2]

theorem digit_quiet (b : UInt8) :
    isReferenceByte b = false → hexValue? b = none ∧ decimalDigit? b = none ∧ lower b ≠ lowerX := by
  revert b
  exact Bytes.forall_byte (by decide +kernel)

theorem Quiet.heads {old new : Bytes} (h : Quiet old new) :
    ∃ b bs c cs, old = b :: bs ∧ new = c :: cs ∧
      isReferenceByte b = false ∧ isReferenceByte c = false := by
  obtain ⟨b, bs, rfl, -⟩ := h.starts
  obtain ⟨c, cs, rfl, -⟩ := (h.inert markOpen List.mem_cons_self).head
  exact ⟨b, bs, c, cs, rfl, rfl, h.outside b (by simp), h.outside c (by simp)⟩

theorem number_patched {digit? : UInt8 → Option Nat} {base value : Nat} {s t : Bytes}
    (h : Patched Quiet s t) (outside : ∀ b, isReferenceByte b = false → digit? b = none) :
    (number digit? base value s).1 = (number digit? base value t).1 := by
  induction h generalizing value with
  | nil => rfl
  | copy b rest ih =>
    rw [number, number]
    cases digit? b with
    | none => rfl
    | some d => exact ih
  | patch allowed rest ih =>
    obtain ⟨b, bs, c, cs, rfl, rfl, first, second⟩ := allowed.heads
    simp only [List.cons_append, number, outside b first, outside c second]

theorem referenceNumber_cons {b : UInt8} (other : b ≠ sharp) (s : Bytes) :
    referenceNumber (b :: s) = 0 := by
  cases s with
  | nil => rfl
  | cons c s => rw [referenceNumber, if_neg other]

theorem referenceNumber_of_quiet {b : UInt8} (quiet : isReferenceByte b = false) (s : Bytes) :
    referenceNumber (b :: s) = 0 := by
  refine referenceNumber_cons ?_ s
  rintro rfl
  exact absurd quiet (by decide)

theorem referenceNumber_patched {s t : Bytes} (h : Patched Quiet s t) :
    referenceNumber s = referenceNumber t := by
  have digits {u v : Bytes} (h : Patched Quiet u v) :=
    @number_patched decimalDigit? 10 0 u v h fun b quiet => (digit_quiet b quiet).2.1
  cases h with
  | nil => rfl
  | patch allowed rest =>
    obtain ⟨b, bs, c, cs, rfl, rfl, first, second⟩ := allowed.heads
    rw [List.cons_append, List.cons_append, referenceNumber_of_quiet first,
      referenceNumber_of_quiet second]
  | copy a rest =>
    cases rest with
    | nil => rfl
    | copy b rest =>
      rw [referenceNumber, referenceNumber, digits (.copy b rest),
        number_patched rest fun b quiet => (digit_quiet b quiet).1]
    | patch allowed rest =>
      have same := digits (.patch allowed rest)
      obtain ⟨b, bs, c, cs, rfl, rfl, first, second⟩ := allowed.heads
      rw [List.cons_append, List.cons_append] at same ⊢
      rw [referenceNumber, referenceNumber, if_neg (digit_quiet b first).2.2,
        if_neg (digit_quiet c second).2.2, same]

theorem refersTo_patched {s t : Bytes} (h : Patched Quiet s t) (k : CodePoint) :
    refersTo k s = refersTo k t := by
  induction h with
  | nil => rfl
  | copy b rest ih => rw [refersTo, refersTo, referenceNumber_patched rest, ih]
  | patch allowed rest ih =>
    have absent {u : Bytes} (quiet : ∀ b ∈ u, isReferenceByte b = false) : amp ∉ u := fun mem =>
      absurd (quiet amp mem) (by decide)
    have quiet := allowed.outside
    rw [List.forall_mem_append] at quiet
    rw [refersTo_append (absent quiet.1), refersTo_append (absent quiet.2), ih]

theorem Unnamed.patched {subs : List Bytes} {s t : Bytes} (clean : Unnamed subs s)
    (h : Patched Quiet s t) : Unnamed subs t := by
  intro sub mem
  obtain ⟨k, char, absent⟩ := clean sub mem
  exact ⟨k, char, refersTo_patched h k ▸ absent⟩

theorem numeric?_ne_nil {hex : Bool} {width : Nat} {body text rest : Bytes}
    (h : numeric? hex width body = some (text, rest)) : text ≠ [] := by
  rw [numeric?] at h
  generalize (if hex then number hexValue? 16 0 body else number decimalDigit? 10 0 body) = read at h
  obtain ⟨value, after⟩ := read
  obtain ⟨-, found⟩ := Option.ite_none_left_eq_some.mp h
  cases found
  exact CodePoint.encode_ne_nil _

/-- A reference stands for something. -/
theorem reference?_ne_nil {rest text : Bytes} {width : Nat}
    (h : reference? rest = some (text, width)) : text ≠ [] := by
  obtain ⟨a, b, body, after, -, -, found⟩ | ⟨-, found⟩ := reference?_cases h
  · split_ifs at found <;> exact numeric?_ne_nil found
  · obtain ⟨b, bs, rfl, -⟩ := (inert_lookup? .opening found).head
    exact List.cons_ne_nil _ _

theorem decode_ne_nil {s : Bytes} (nonempty : s ≠ []) : decode s ≠ [] := by
  obtain ⟨c, cs, rfl⟩ := List.exists_cons_of_ne_nil nonempty
  rw [decode, decodeFrom]
  split_ifs
  · split
    · rename_i found
      simp [reference?_ne_nil found]
    · exact List.cons_ne_nil _ _
  · exact List.cons_ne_nil _ _

end Markup.Entity

namespace Markup
open Entity

theorem patched_unifyLines (s : Bytes) : Patched Quiet s (unifyLines s) := by
  induction size : s.length using Nat.strongRecOn generalizing s with
  | ind size ih =>
    have alone : Quiet [cr] [lf] := .of_bytes rfl (by decide +kernel) (by decide +kernel) (by decide +kernel)
    have paired : Quiet [cr, lf] [lf] := .of_bytes rfl (by decide +kernel) (by decide +kernel) (by decide +kernel)
    cases s with
    | nil => exact .nil
    | cons c cs =>
      rw [List.length_cons] at size
      have later := ih cs.length (by omega) cs rfl
      rw [unifyLines]
      split_ifs with return_ feed
      · -- the line feed after the carriage return stays, as the end of the line
        obtain ⟨tail, rfl⟩ := List.head?_eq_some_iff.mp feed
        rw [List.length_cons] at size
        rw [return_, unifyLines, if_neg (by decide)]
        exact .patch paired (ih tail.length (by omega) tail rfl)
      · rw [return_]
        exact .patch alone later
      · exact .copy c later

theorem patched_replaceNul (s : Bytes) : Patched Quiet s (replaceNul s) := by
  have replaced : Quiet [nul] (CodePoint.encode CodePoint.replacement) :=
    .of_bytes rfl (by decide +kernel) (by decide +kernel) (by decide +kernel)
  induction s with
  | nil => exact .nil
  | cons c cs ih =>
    rw [replaceNul, List.flatMap_cons, ← replaceNul]
    split_ifs with null
    · rw [null]
      exact .patch replaced ih
    · exact .copy c ih

theorem patched_lower (s : Bytes) : Patched (Harmless reserved) s (Bytes.lower s) := by
  have letter (b : UInt8) : lower b = b ∨
      (isMarkByte b = false ∧ lower b ≠ 0xEE ∧ lower b ≠ 0x80 ∧ lower b ≠ 0x81) := by
    revert b
    exact Bytes.forall_byte (by decide +kernel)
  induction s with
  | nil => exact .nil
  | cons c cs ih =>
    rw [Bytes.lower, List.map_cons, ← Bytes.lower]
    rcases letter c with same | ⟨outside, opens, goesOn⟩
    · rw [same]
      exact .copy c ih
    · change Patched (Harmless reserved) ([c] ++ cs) ([lower c] ++ Bytes.lower cs)
      have inert : ∀ sub ∈ reserved, Inert sub [lower c] := fun sub mem =>
        ⟨unopened_of_forall mem (by simpa using opens), _, _, rfl, not_mem_tail mem goesOn⟩
      refine .patch ⟨inert, ⟨_, _, rfl, outside⟩, List.forall_mem_singleton.mpr ?_⟩ ih
      rintro rfl
      exact absurd outside (by decide)

theorem unifyLines_ne_nil {s : Bytes} (nonempty : s ≠ []) : unifyLines s ≠ [] := by
  fun_induction unifyLines s with
  | case1 => exact absurd rfl nonempty
  | case2 cs feed ih => exact ih (by rintro rfl; cases feed)
  | case3 | case4 => exact List.cons_ne_nil _ _

theorem replaceNul_ne_nil {s : Bytes} (nonempty : s ≠ []) : replaceNul s ≠ [] := by
  obtain ⟨c, cs, rfl⟩ := List.exists_cons_of_ne_nil nonempty
  rw [replaceNul, List.flatMap_cons]
  split
  · simp [CodePoint.encode_ne_nil]
  · exact List.cons_ne_nil _ _

end Markup

/-- A text whose marks are those of blocks, and in which no reference writes another one. -/
structure Sound (count : Nat) (s : Bytes) : Prop where
  marked : WellMarked count s
  clean : Entity.refersToMark s = false

namespace Sound
variable {count : Nat} {s t : Bytes}

theorem slice (h : Sound count s) (slice : Slice t s) : Sound count t :=
  ⟨h.marked.slice slice, Entity.refersToMark_slice h.clean slice⟩

theorem quiet (h : Sound count s) (patched : Patched Entity.Quiet s t) : Sound count t :=
  ⟨patched.wellMarked (fun _ _ quiet => quiet.toHarmless) List.mem_cons_self h.marked, by
    rw [Entity.refersToMark_eq, ← Entity.refersTo_patched patched, ← Entity.refersToMark_eq]
    exact h.clean⟩

theorem decode (h : Sound count s) : WellMarked count (Entity.decode s) :=
  (Entity.patched_decodeFrom (Entity.unnamed_opening h.clean) 0 0).wellMarked
    (fun _ _ harmless => harmless) List.mem_cons_self h.marked

theorem lower (h : Sound count s) : WellMarked count (Bytes.lower s) :=
  (patched_lower s).wellMarked (fun _ _ harmless => harmless) List.mem_cons_self h.marked

theorem shownText (h : Sound count s) : WellMarked count (Markup.shownText s) :=
  (h.quiet (patched_unifyLines s)).decode

theorem shownComment (h : Sound count s) : WellMarked count (Markup.shownComment s) :=
  ((h.quiet (patched_unifyLines s)).quiet (patched_replaceNul _)).decode

theorem shownRaw (h : Sound count s) (element : RawElement) : WellMarked count (element.shown s) := by
  have lines := (h.quiet (patched_unifyLines s)).quiet (patched_replaceNul _)
  rw [RawElement.shown]
  split
  · exact lines.decode
  · exact lines.marked

end Sound

end DomTemplate
