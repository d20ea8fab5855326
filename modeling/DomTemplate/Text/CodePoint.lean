import DomTemplate.Bytes

/-! Code points and their UTF-8 form. `decode?` refuses overlong forms, surrogates
and values past the last code point, so a text is read in one way only; a byte at
which it fails stands for itself. -/

namespace DomTemplate

/-- A Unicode code point. -/
abbrev CodePoint := Nat

namespace CodePoint

/-- Stands in for a value that is no character. -/
def replacement : CodePoint := 0xFFFD

def isSurrogate (r : CodePoint) : Bool := 0xD800 ≤ r && r ≤ 0xDFFF

def isScalar (r : CodePoint) : Bool := r ≤ 0x10FFFF && !isSurrogate r

def trail (n : Nat) : UInt8 := (0x80 + n % 0x40).toUInt8

/-- UTF-8 form; `replacement` is written for a value that is no character. -/
def encode (r : CodePoint) : Bytes :=
  if r < 0x80 then [r.toUInt8]
  else if r < 0x800 then [(0xC0 + r / 0x40).toUInt8, trail r]
  else if !isScalar r then [0xEF, 0xBF, 0xBD]
  else if r < 0x10000 then [(0xE0 + r / 0x1000).toUInt8, trail (r / 0x40), trail r]
  else [(0xF0 + r / 0x40000).toUInt8, trail (r / 0x1000), trail (r / 0x40), trail r]

/-- The six bits carried by a continuation byte. -/
def trailBits? (b : UInt8) : Option Nat :=
  if 0x80 ≤ b && b ≤ 0xBF then some (b.toNat - 0x80) else none

/-- Accept `r` only if `size` bytes are its shortest form. -/
def ofShortest? (size : Nat) (r : CodePoint) (rest : Bytes) : Option (CodePoint × Bytes) :=
  if isScalar r && (encode r).length == size then some (r, rest) else none

/-- The code point that `s` starts with, and what follows it. -/
def decode? : Bytes → Option (CodePoint × Bytes)
  | [] => none
  | a :: rest =>
    if a < 0x80 then some (a.toNat, rest)
    else if a < 0xC0 then none
    else if a < 0xE0 then
      match rest with
      | b :: rest => do
        let b ← trailBits? b
        ofShortest? 2 ((a.toNat - 0xC0) * 0x40 + b) rest
      | _ => none
    else if a < 0xF0 then
      match rest with
      | b :: c :: rest => do
        let b ← trailBits? b
        let c ← trailBits? c
        ofShortest? 3 ((a.toNat - 0xE0) * 0x1000 + b * 0x40 + c) rest
      | _ => none
    else if a < 0xF8 then
      match rest with
      | b :: c :: d :: rest => do
        let b ← trailBits? b
        let c ← trailBits? c
        let d ← trailBits? d
        ofShortest? 4 ((a.toNat - 0xF0) * 0x40000 + b * 0x1000 + c * 0x40 + d) rest
      | _ => none
    else none

theorem length_ofShortest? {size : Nat} {r q : CodePoint} {rest out : Bytes}
    (h : ofShortest? size r rest = some (q, out)) : out.length = rest.length := by
  unfold ofShortest? at h
  split at h
  · simp only [Option.some.injEq, Prod.mk.injEq] at h
    rw [h.2]
  · simp at h

/-- Reading a code point consumes at least one byte. -/
theorem decode?_length_lt {s rest : Bytes} {r : CodePoint} (h : decode? s = some (r, rest)) :
    rest.length < s.length := by
  unfold decode? at h
  split at h
  · simp at h
  · rename_i a tail
    split at h
    · simp only [Option.some.injEq, Prod.mk.injEq] at h
      rw [← h.2]; simp
    split at h
    · simp at h
    split at h
    · split at h
      · rename_i b tail
        simp only [bind, Option.bind_eq_some_iff] at h
        obtain ⟨_, _, h⟩ := h
        have := length_ofShortest? h
        simp only [List.length_cons]; omega
      · simp at h
    split at h
    · split at h
      · simp only [bind, Option.bind_eq_some_iff] at h
        obtain ⟨_, _, _, _, h⟩ := h
        have := length_ofShortest? h
        simp only [List.length_cons]; omega
      · simp at h
    split at h
    · split at h
      · simp only [bind, Option.bind_eq_some_iff] at h
        obtain ⟨_, _, _, _, _, _, h⟩ := h
        have := length_ofShortest? h
        simp only [List.length_cons]; omega
      · simp at h
    · simp at h

end CodePoint

/-- One unit of a text read as UTF-8: a character, or a byte that starts none. -/
inductive TextUnit where
  | codePoint (r : CodePoint)
  | stray (b : UInt8)
  deriving DecidableEq, Repr

/-- The units of `s`, in order. -/
def Bytes.units (s : Bytes) : List TextUnit :=
  match h : CodePoint.decode? s with
  | some (r, rest) =>
    have := CodePoint.decode?_length_lt h
    .codePoint r :: Bytes.units rest
  | none =>
    match s with
    | [] => []
    | b :: rest => .stray b :: Bytes.units rest
termination_by s.length

/-- Every byte of `s` belongs to a character. -/
def Bytes.isUtf8 (s : Bytes) : Bool :=
  s.units.all fun
    | .codePoint _ => true
    | .stray _ => false

end DomTemplate
