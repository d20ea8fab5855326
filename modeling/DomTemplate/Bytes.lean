import DomTemplate.Ascii

/-! Texts are byte strings: a template, a path or a file may hold bytes that are
not UTF-8, and every offset and column counts bytes. A byte string is a list, so
that scanners follow its structure and list lemmas apply as they stand. -/

namespace DomTemplate

abbrev Bytes := List UInt8

/-- The UTF-8 bytes of `s`. -/
def utf8 (s : String) : Bytes := s.toList.flatMap String.utf8EncodeChar

theorem utf8_append (s t : String) : utf8 (s ++ t) = utf8 s ++ utf8 t := by
  simp [utf8]

/-- A literal text is also given by its characters, which takes no decoding. -/
theorem utf8_ofList (chars : List Char) :
    utf8 (String.ofList chars) = chars.flatMap String.utf8EncodeChar := by
  simp [utf8]

namespace Bytes
open Ascii

/-- What follows `p` in a text that starts with it. -/
def dropPrefix? : (p s : Bytes) → Option Bytes
  | [], s => some s
  | _ :: _, [] => none
  | p :: ps, c :: cs => if p = c then dropPrefix? ps cs else none

/-- The text before a trailing `t`. -/
def dropSuffix? (t s : Bytes) : Option Bytes :=
  (dropPrefix? t.reverse s.reverse).map List.reverse

/-- `s` without a trailing `t`, or `s` itself. -/
def trimSuffix (t s : Bytes) : Bytes := (dropSuffix? t s).getD s

/-- `s` without a leading `p`, or `s` itself. -/
def trimPrefix (p s : Bytes) : Bytes := (dropPrefix? p s).getD s

def startsWith (s p : Bytes) : Bool := p.isPrefixOf s

def endsWith (s t : Bytes) : Bool := t.isSuffixOf s

/-- The texts before and after the first occurrence of `sep`. -/
def cut? (sep : Bytes) : Bytes → Option (Bytes × Bytes)
  | [] => if sep.isEmpty then some ([], []) else none
  | c :: cs =>
    match dropPrefix? sep (c :: cs) with
    | some rest => some ([], rest)
    | none => (cut? sep cs).map fun (before, rest) => (c :: before, rest)

theorem length_dropPrefix? {p s rest : Bytes} (h : dropPrefix? p s = some rest) :
    rest.length + p.length = s.length := by
  induction p generalizing s with
  | nil => simp only [dropPrefix?, Option.some.injEq] at h; simp [h]
  | cons a p ih =>
    cases s with
    | nil => simp [dropPrefix?] at h
    | cons b s =>
      rw [dropPrefix?] at h
      split at h
      · have := ih h; simp only [List.length_cons]; omega
      · simp at h

/-- What follows a separator is shorter than the whole. -/
theorem length_cut?_lt {sep s before rest : Bytes} (hsep : sep ≠ [])
    (h : cut? sep s = some (before, rest)) : rest.length < s.length := by
  induction s generalizing before rest with
  | nil => cases sep <;> simp_all [cut?]
  | cons c cs ih =>
    rw [cut?] at h
    split at h
    · rename_i tail hd
      have hpos : 0 < sep.length := List.length_pos_iff.mpr hsep
      have := length_dropPrefix? hd
      simp only [Option.some.injEq, Prod.mk.injEq] at h
      rw [← h.2]; omega
    · simp only [Option.map_eq_some_iff] at h
      obtain ⟨⟨b, r⟩, hr, he⟩ := h
      simp only [Prod.mk.injEq] at he
      have := ih hr
      rw [← he.2]; simp only [List.length_cons]; omega

def contains (s sub : Bytes) : Bool := (cut? sub s).isSome

/-- The pieces between the occurrences of `sep`; always at least one. -/
def splitOn (sep : UInt8) : Bytes → List Bytes
  | [] => [[]]
  | c :: cs =>
    if c = sep then [] :: splitOn sep cs
    else match splitOn sep cs with
      | [] => [[c]]
      | piece :: pieces => (c :: piece) :: pieces

def join (sep : Bytes) : List Bytes → Bytes := List.intercalate sep

def lower (s : Bytes) : Bytes := s.map Ascii.lower

def dropWhileRight (p : UInt8 → Bool) (s : Bytes) : Bytes :=
  (s.reverse.dropWhile p).reverse

/-- `s` starts with `p`, the case of ASCII letters aside. -/
def startsWithFold (s p : Bytes) : Bool := startsWith (lower s) (lower p)

/-- Decimal digits of `n`, without leading zeros. -/
def decimal (n : Nat) : Bytes :=
  if n < 10 then [zero + n.toUInt8]
  else decimal (n / 10) ++ [zero + (n % 10).toUInt8]
termination_by n
decreasing_by omega

def decimalInt : Int → Bytes
  | .ofNat n => decimal n
  | .negSucc n => dash :: decimal (n + 1)

/-- The number written by `s`, if `s` is a non-empty run of digits. -/
def digits? (s : Bytes) : Option Nat :=
  if s.isEmpty || !s.all isDigit then none
  else some (s.foldl (fun n b => 10 * n + (b.toNat - zero.toNat)) 0)

/-- The number written by an optional sign and digits. -/
def signed? : Bytes → Option Int
  | [] => none
  | c :: cs =>
    if c = dash then (digits? cs).map fun n => -(n : Int)
    else if c = plus then (digits? cs).map fun n => (n : Int)
    else (digits? (c :: cs)).map fun n => (n : Int)

/-- Two to the power of 63, the first number that has no signed 64-bit form. -/
def signedLimit : Nat := 0x8000000000000000

/-- The signed 64-bit number written by `s`. -/
def int64? (s : Bytes) : Option Int :=
  (signed? s).filter fun value => -(signedLimit : Int) ≤ value && value < (signedLimit : Int)

def replicate (n : Nat) (b : UInt8) : Bytes := List.replicate n b

/-- Bytewise order, a proper prefix first. -/
def le : (s t : Bytes) → Bool
  | [], _ => true
  | _ :: _, [] => false
  | a :: s, b :: t => a < b || (a == b && le s t)

end Bytes
end DomTemplate
