import DomTemplate.Proofs.ScriptEnd

/-! Quoted texts are read back. A reader takes a byte at a time: a plain byte stands for itself, and
a backslash starts a short escape or a number of two, four or eight hexadecimal digits. It finds the
text that was quoted, whatever its bytes are, and stops at the quote that closes it. -/

namespace DomTemplate
open Ascii

namespace CodePoint

theorem toNat_of_trailBits? {b : UInt8} {n : Nat} (h : trailBits? b = some n) :
    n < 0x40 ∧ b.toNat = 0x80 + n := by
  rw [trailBits?] at h
  split_ifs at h with bounds
  simp only [Bool.and_eq_true, decide_eq_true_eq, UInt8.le_iff_toNat_le, UInt8.reduceToNat] at bounds
  rw [Option.some.injEq] at h
  omega

theorem eq_trail {b : UInt8} {n r : Nat} (h : trailBits? b = some n) (bits : r % 0x40 = n) :
    b = trail r := by
  obtain ⟨-, value⟩ := toNat_of_trailBits? h
  rw [← UInt8.toNat_inj, toNat_trail, value, bits]

theorem eq_toUInt8 {a : UInt8} {n : Nat} (h : a.toNat = n) : a = n.toUInt8 := by
  rw [← h]
  simp

theorem ofShortest?_ok {size r q : Nat} {rest out : Bytes}
    (h : ofShortest? size r rest = some (q, out)) :
    isScalar r = true ∧ (encode r).length = size ∧ q = r ∧ out = rest := by
  rw [ofShortest?] at h
  split_ifs at h with fits
  rw [Bool.and_eq_true, beq_iff_eq] at fits
  cases h
  exact ⟨fits.1, fits.2, rfl, rfl⟩

/-- The forms of a character by their length. -/
theorem encode_cases {r : Nat} (scalar : isScalar r = true) :
    encode r = [r.toUInt8] ∨
    encode r = [(0xC0 + r / 0x40).toUInt8, trail r] ∨
    encode r = [(0xE0 + r / 0x1000).toUInt8, trail (r / 0x40), trail r] ∨
    encode r = [(0xF0 + r / 0x40000).toUInt8, trail (r / 0x1000), trail (r / 0x40), trail r] := by
  rw [encode, scalar]
  split_ifs <;> simp_all

/-- A character that is read is the one that was written, and no number past the last. -/
theorem eq_of_decode? {s rest : Bytes} {r : Nat} (h : decode? s = some (r, rest)) :
    s = encode r ++ rest ∧ r ≤ 0x10FFFF := by
  cases s with
  | nil => cases h
  | cons a s =>
    have byte := a.toNat_lt
    rw [decode?.eq_def] at h
    simp only [UInt8.lt_iff_toNat_lt, UInt8.reduceToNat] at h
    -- the first byte gives the number of bytes, and a longer form of the same is refused
    split_ifs at h with one stray two three four
    · cases h
      rw [encode, if_pos one]
      exact ⟨by simp, by omega⟩
    · rcases s with _ | ⟨b, s⟩
      · cases h
      simp only [bind, Option.bind_eq_some_iff] at h
      obtain ⟨m, second, h⟩ := h
      obtain ⟨scalar, size, same, rfl⟩ := ofShortest?_ok h
      rw [← same] at scalar size
      have bits := (toNat_of_trailBits? second).1
      refine ⟨?_, le_of_isScalar scalar⟩
      rcases encode_cases scalar with form | form | form | form <;> simp [form] at size
      rw [form, eq_trail (r := r) second (by omega), eq_toUInt8 (a := a) (n := 0xC0 + r / 0x40) (by omega)]
      rfl
    · rcases s with _ | ⟨b, _ | ⟨c, s⟩⟩
      · cases h
      · cases h
      simp only [bind, Option.bind_eq_some_iff] at h
      obtain ⟨m, second, n, third, h⟩ := h
      obtain ⟨scalar, size, same, rfl⟩ := ofShortest?_ok h
      rw [← same] at scalar size
      have bits := (toNat_of_trailBits? second).1
      have bits' := (toNat_of_trailBits? third).1
      refine ⟨?_, le_of_isScalar scalar⟩
      rcases encode_cases scalar with form | form | form | form <;> simp [form] at size
      rw [form, eq_trail (r := r / 0x40) second (by omega), eq_trail (r := r) third (by omega),
        eq_toUInt8 (a := a) (n := 0xE0 + r / 0x1000) (by omega)]
      rfl
    · rcases s with _ | ⟨b, _ | ⟨c, _ | ⟨d, s⟩⟩⟩
      · cases h
      · cases h
      · cases h
      simp only [bind, Option.bind_eq_some_iff] at h
      obtain ⟨m, second, n, third, k, fourth, h⟩ := h
      obtain ⟨scalar, size, same, rfl⟩ := ofShortest?_ok h
      rw [← same] at scalar size
      have bits := (toNat_of_trailBits? second).1
      have bits' := (toNat_of_trailBits? third).1
      have bits'' := (toNat_of_trailBits? fourth).1
      refine ⟨?_, le_of_isScalar scalar⟩
      rcases encode_cases scalar with form | form | form | form <;> simp [form] at size
      rw [form, eq_trail (r := r / 0x1000) second (by omega),
        eq_trail (r := r / 0x40) third (by omega), eq_trail (r := r) fourth (by omega),
        eq_toUInt8 (a := a) (n := 0xF0 + r / 0x40000) (by omega)]
      rfl

end CodePoint

/-- The bytes of a unit. -/
def TextUnit.bytes : TextUnit → Bytes
  | .codePoint r => CodePoint.encode r
  | .stray b => [b]

/-- The units of a text are its bytes in order, and their numbers are those of characters. -/
theorem Bytes.units_spec (s : Bytes) :
    s.units.flatMap TextUnit.bytes = s ∧ ∀ u ∈ s.units, ∀ r : Nat, u = .codePoint r → r ≤ 0x10FFFF := by
  fun_induction Bytes.units s with
  | case1 s r rest read shorter ih =>
    obtain ⟨whole, last⟩ := CodePoint.eq_of_decode? read
    rw [List.flatMap_cons, ih.1, List.forall_mem_cons]
    refine ⟨whole.symm, ?_, ih.2⟩
    rintro r ⟨⟩
    exact last
  | case2 => exact ⟨rfl, by simp⟩
  | case3 b rest stray ih =>
    rw [List.flatMap_cons, ih.1, List.forall_mem_cons]
    exact ⟨rfl, nofun, ih.2⟩

section Digits

theorem hexValue?_hexDigit {n : Nat} (h : n < 16) : hexValue? (hexDigit n) = some n := by
  have all : ∀ n < 16, hexValue? (hexDigit n) = some n := by decide
  exact all n h

theorem length_hexDigits (width n : Nat) : (hexDigits width n).length = width := by
  induction width generalizing n with
  | zero => rfl
  | succ width ih => rw [hexDigits, List.length_append, ih, List.length_singleton]

/-- The number that starts with `value` and goes on with the given digits. -/
def hexNumber (value : Nat) (digits : Bytes) : Nat :=
  digits.foldl (fun v d => 16 * v + (hexValue? d).getD 0) value

theorem hexNumber_hexDigits {width n : Nat} (h : n < Nat.pow 16 width) :
    hexNumber 0 (hexDigits width n) = n := by
  induction width generalizing n with
  | zero =>
    have none : n < 1 := h
    simp [hexDigits, hexNumber]
    omega
  | succ width ih =>
    have bound : n < Nat.pow 16 width * 16 := h
    have front := ih (n := n / 16) (by omega)
    rw [hexNumber] at front ⊢
    rw [hexDigits, List.foldl_concat, front, hexValue?_hexDigit (Nat.mod_lt n (by decide)),
      Option.getD_some]
    omega

theorem isSome_of_mem_hexDigits {width n : Nat} {d : UInt8} (mem : d ∈ hexDigits width n) :
    ∃ v < 16, d = hexDigit v := by
  induction width generalizing n with
  | zero => cases mem
  | succ width ih =>
    rcases List.mem_append.mp mem with front | last
    · exact ih front
    · exact ⟨n % 16, Nat.mod_lt n (by decide), List.mem_singleton.mp last⟩

end Digits

/-- Where a reader of a quoted text stands. -/
inductive Unquoting where
  | plain
  /-- Behind a backslash. -/
  | escape
  /-- In a number of which `left` digits are to come, that of a character or of a byte. -/
  | number (char : Bool) (left value : Nat)

namespace Unquoting

/-- The byte that a short escape stands for. -/
def short? (c : UInt8) : Option UInt8 :=
  List.lookup c [(0x61, 0x07), (0x62, 0x08), (0x66, 0x0C), (0x6E, 0x0A), (0x72, 0x0D), (0x74, 0x09),
    (0x76, 0x0B), (quote, quote), (backslash, backslash)]

/-- What starts behind a backslash and `c`, if that is a number. -/
def numeric? (c : UInt8) : Option Unquoting :=
  if c = lowerX then some (.number false 2 0)
  else if c = 0x75 then some (.number true 4 0)
  else if c = 0x55 then some (.number true 8 0)
  else none

def spelled (char : Bool) (n : Nat) : Bytes := if char then CodePoint.encode n else [n.toUInt8]

/-- What is read with `text` in front of it. -/
def behind (text : Bytes) (r : Option (Bytes × Bytes)) : Option (Bytes × Bytes) :=
  r.map fun r => (text ++ r.1, r.2)

/-- The text up to the closing quote, and what follows the quote. -/
def read : Unquoting → Bytes → Option (Bytes × Bytes)
  | _, [] => none
  | plain, b :: s =>
    if b = quote then some ([], s)
    else if b = backslash then read escape s
    else behind [b] (read plain s)
  | escape, c :: s =>
    match numeric? c with
    | some start => read start s
    | none => (short? c).bind fun b => behind [b] (read plain s)
  | number char left value, d :: s =>
    (hexValue? d).bind fun v =>
      if left = 1 then behind (spelled char (16 * value + v)) (read plain s)
      else read (number char (left - 1) (16 * value + v)) s

theorem behind_behind (s t : Bytes) (r : Option (Bytes × Bytes)) :
    behind s (behind t r) = behind (s ++ t) r := by
  cases r <;> simp [behind]

theorem read_bytes {t : Bytes} (bare : ∀ b ∈ t, b ≠ quote ∧ b ≠ backslash) (s : Bytes) :
    read plain (t ++ s) = behind t (read plain s) := by
  induction t with
  | nil => cases result : read plain s <;> simp [behind, result]
  | cons b t ih =>
    rw [List.forall_mem_cons] at bare
    rw [List.cons_append, read, if_neg bare.1.1, if_neg bare.1.2, ih bare.2, behind_behind]
    rfl

theorem read_short {c b : UInt8} (h : short? c = some b) (other : numeric? c = none) (s : Bytes) :
    read plain (backslash :: c :: s) = behind [b] (read plain s) := by
  rw [read, if_neg (by decide), if_pos rfl, read, other]
  simp only [h, Option.bind_some]

theorem read_digits {ds : Bytes} (digits : ∀ d ∈ ds, ∃ v < 16, d = hexDigit v) (nonempty : ds ≠ [])
    (char : Bool) (value : Nat) (s : Bytes) :
    read (number char ds.length value) (ds ++ s) =
      behind (spelled char (hexNumber value ds)) (read plain s) := by
  induction ds generalizing value with
  | nil => exact absurd rfl nonempty
  | cons d ds ih =>
    rw [List.forall_mem_cons] at digits
    obtain ⟨⟨v, small, rfl⟩, digits⟩ := digits
    rw [List.cons_append, read, hexValue?_hexDigit small, Option.bind_some, List.length_cons]
    cases ds with
    | nil => simp [hexNumber, hexValue?_hexDigit small]
    | cons d' ds =>
      rw [if_neg (by simp), Nat.add_sub_cancel, ih digits (List.cons_ne_nil _ _)]
      simp only [hexNumber, List.foldl_cons, hexValue?_hexDigit small, Option.getD_some]

theorem read_hexDigits (char : Bool) (width : Nat) {n : Nat} {c : UInt8} (positive : width ≠ 0)
    (starts : numeric? c = some (.number char width 0)) (fits : n < Nat.pow 16 width) (s : Bytes) :
    read plain (backslash :: c :: (hexDigits width n ++ s)) = behind (spelled char n) (read plain s) := by
  have nonempty : hexDigits width n ≠ [] := by
    rw [← List.length_pos_iff, length_hexDigits]
    omega
  have run := read_digits (fun d mem => isSome_of_mem_hexDigits mem) nonempty char 0 s
  rw [length_hexDigits, hexNumber_hexDigits fits] at run
  rw [read, if_neg (by decide), if_pos rfl, read, starts]
  exact run

theorem short?_of_shortEscape? {r : Nat} {c : Char} (h : shortEscape? r = some c) :
    r < 0x80 ∧ short? c.toNat.toUInt8 = some r.toUInt8 ∧ numeric? c.toNat.toUInt8 = none := by
  rw [shortEscape?] at h
  split_ifs at h with at_ <;> cases h <;> subst r <;> decide

theorem read_codePoint {r : Nat} (last : r ≤ 0x10FFFF) (s : Bytes) :
    read plain ((TextUnit.codePoint r).quoted ++ s) = behind (CodePoint.encode r) (read plain s) := by
  have ascii (small : r < 0x80) : CodePoint.encode r = [r.toUInt8] := by
    rw [CodePoint.encode, if_pos small]
  rw [TextUnit.quoted]
  by_cases sign : r = quote.toNat ∨ r = backslash.toNat
  · rw [if_pos sign]
    rcases sign with rfl | rfl
    · exact read_short (c := quote) rfl rfl s
    · exact read_short (c := backslash) rfl rfl s
  rw [if_neg sign]
  by_cases printable : CodePoint.isPrintable r = true
  · rw [if_pos printable]
    refine read_bytes (fun b mem => ⟨?_, ?_⟩) s
    · rintro rfl
      exact sign (.inl (CodePoint.eq_of_mem_encode (by decide) mem))
    · rintro rfl
      exact sign (.inr (CodePoint.eq_of_mem_encode (by decide) mem))
  rw [if_neg printable]
  cases short : shortEscape? r with
  | some c =>
    obtain ⟨small, read, other⟩ := short?_of_shortEscape? short
    rw [ascii small]
    exact read_short read other s
  | none =>
    by_cases control : r < 0x20 ∨ r = 0x7F
    · have small : r < 0x80 := by omega
      simp only [if_pos control, ascii small]
      exact read_hexDigits false 2 (by decide) rfl (show r < 256 by omega) s
    by_cases plane : r < 0x10000
    · simp only [if_neg control, if_pos plane]
      exact read_hexDigits true 4 (by decide) rfl plane s
    · simp only [if_neg control, if_neg plane]
      exact read_hexDigits true 8 (by decide) rfl (show r < 4294967296 by omega) s

/-- A unit is read as its bytes, whatever follows it. -/
theorem read_unit {u : TextUnit} (last : ∀ r : Nat, u = .codePoint r → r ≤ 0x10FFFF) (s : Bytes) :
    read plain (u.quoted ++ s) = behind u.bytes (read plain s) := by
  cases u with
  | stray b =>
    have byte : spelled false b.toNat = [b] := by simp [spelled]
    rw [TextUnit.quoted, TextUnit.bytes, ← byte]
    exact read_hexDigits false 2 (by decide) rfl b.toNat_lt s
  | codePoint r => exact read_codePoint (last r rfl) s

/-- The reader finds the text that was quoted, and stops behind it. -/
theorem read_quoted (s rest : Bytes) :
    read plain (s.units.flatMap TextUnit.quoted ++ quote :: rest) = some (s, rest) := by
  obtain ⟨whole, last⟩ := s.units_spec
  have units (us : List TextUnit) (last : ∀ u ∈ us, ∀ r : Nat, u = .codePoint r → r ≤ 0x10FFFF) :
      read plain (us.flatMap TextUnit.quoted ++ quote :: rest) =
        some (us.flatMap TextUnit.bytes, rest) := by
    induction us with
    | nil => rfl
    | cons u us ih =>
      rw [List.forall_mem_cons] at last
      rw [List.flatMap_cons, List.append_assoc, read_unit last.1, ih last.2]
      rfl
  rw [units _ last, whole]

end Unquoting

namespace Bytes

theorem quoted_append_inj {s t x y : Bytes} (h : s.quoted ++ x = t.quoted ++ y) : s = t ∧ x = y := by
  have bodies : s.units.flatMap TextUnit.quoted ++ quote :: x =
      t.units.flatMap TextUnit.quoted ++ quote :: y := by
    simpa [quoted] using h
  have first := Unquoting.read_quoted s x
  rw [bodies, Unquoting.read_quoted] at first
  cases first
  exact ⟨rfl, rfl⟩

end Bytes

end DomTemplate
