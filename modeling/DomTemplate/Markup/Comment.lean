import DomTemplate.Bytes

/-! Comments and declarations: the text between the opener and the end, and what is
left. A comment ends at `-->`, at `--!>`, or where nothing but dashes precede a `>`;
one that the input cuts off loses the dashes it ends in. -/

namespace DomTemplate.Markup
open Ascii

/-- The text of an unfinished comment: a trailing `--!`, `--` or `-` is dropped. -/
def abruptComment (seen : Bytes) : Bytes :=
  match ([utf8 "--!", utf8 "--", utf8 "-"]).findSome? fun t => Bytes.dropSuffix? t seen with
  | some kept => kept
  | none => seen

/-- Read a comment after its opener. `dashes` counts the dashes just read, `onlyDashes`
says that nothing else came before, `seen` holds what was read, last byte first, and
`afterBang` that `--!` was just read. -/
def commentSpan (dashes : Nat) (onlyDashes afterBang : Bool) (seen : Bytes) :
    Bytes → Bytes × Bytes
  | [] => (abruptComment seen.reverse, [])
  | c :: cs =>
    if afterBang then
      if c = gt then ((seen.drop 3).reverse, cs)
      else commentSpan (if c = dash then 1 else 0) false false (c :: seen) cs
    else if c = dash then commentSpan (dashes + 1) onlyDashes false (c :: seen) cs
    else if c = gt ∧ (2 ≤ dashes ∨ onlyDashes) then ((seen.drop 2).reverse, cs)
    else commentSpan 0 false (c = bang ∧ 2 ≤ dashes) (c :: seen) cs

/-- The bytes up to a `>`, and what follows it. -/
def angleSpan (s : Bytes) : Bytes × Bytes :=
  (s.takeWhile (· != gt), (s.dropWhile (· != gt)).drop 1)

theorem length_commentSpan_le (dashes : Nat) (onlyDashes afterBang : Bool) (seen s : Bytes) :
    (commentSpan dashes onlyDashes afterBang seen s).2.length ≤ s.length := by
  induction s generalizing dashes onlyDashes afterBang seen with
  | nil => simp [commentSpan]
  | cons c cs ih =>
    unfold commentSpan
    split
    · split
      · simp
      · exact Nat.le_succ_of_le (ih ..)
    split
    · exact Nat.le_succ_of_le (ih ..)
    split
    · simp
    · exact Nat.le_succ_of_le (ih ..)

theorem length_angleSpan_le (s : Bytes) : (angleSpan s).2.length ≤ s.length := by
  have : (s.dropWhile (· != gt)).length ≤ s.length := (List.dropWhile_sublist _).length_le
  simp only [angleSpan, List.length_drop]; omega

/-- What a text after `<!` turns out to be. -/
inductive Declaration where
  | comment (text : Bytes)
  | doctype (text : Bytes)
  deriving DecidableEq, Repr

def doctypeWord : Bytes := utf8 "doctype"

/-- Read what follows `<!`. A declaration that the input cuts off inside the word that
would make it a doctype is an empty comment, and one of a single byte is a comment of
that byte. -/
def declarationSpan (s : Bytes) : Declaration × Bytes :=
  if s.length < 2 then (.comment s, [])
  else if (utf8 "--").isPrefixOf s then
    let (text, rest) := commentSpan 0 true false [] (s.drop 2)
    (.comment text, rest)
  else if Bytes.startsWithFold s doctypeWord then
    let (text, rest) := angleSpan ((s.drop doctypeWord.length).dropWhile isTagSpace)
    (.doctype text, rest)
  else if Bytes.startsWith doctypeWord (Bytes.lower s) then (.comment [], [])
  else
    let (text, rest) := angleSpan s
    (.comment text, rest)

theorem length_declarationSpan_le (s : Bytes) : (declarationSpan s).2.length ≤ s.length := by
  unfold declarationSpan
  split
  · simp
  split
  · have := length_commentSpan_le 0 true false [] (s.drop 2)
    simp only [List.length_drop] at this
    exact Nat.le_trans this (Nat.sub_le ..)
  split
  · have hangle := length_angleSpan_le ((s.drop doctypeWord.length).dropWhile isTagSpace)
    have hdrop : ((s.drop doctypeWord.length).dropWhile isTagSpace).length ≤
        (s.drop doctypeWord.length).length := (List.dropWhile_sublist _).length_le
    simp only [List.length_drop] at hdrop
    exact Nat.le_trans hangle (Nat.le_trans hdrop (Nat.sub_le ..))
  split
  · simp
  · exact length_angleSpan_le s

end DomTemplate.Markup
