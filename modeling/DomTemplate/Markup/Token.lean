import DomTemplate.Markup.Comment
import DomTemplate.Markup.Entity
import DomTemplate.Markup.Tag

/-! Markup as a sequence of tokens. Each token keeps the bytes it was read from, so that
the tokens of a text, put end to end, give the text back. A text always has tokens: what
is no markup is text, and a tag that the input cuts off is kept as unfinished. -/

namespace DomTemplate.Markup
open Ascii

inductive Token where
  /-- A run of text: as written, and what it shows. -/
  | text (raw shown : Bytes)
  | startTag (raw : Bytes) (parts : TagParts)
  | endTag (raw : Bytes)
  | comment (raw text : Bytes)
  | doctype (raw text : Bytes)
  /-- A tag cut off by the end of the input. -/
  | unfinished (raw : Bytes)
  deriving DecidableEq, Repr

namespace Token

def raw : Token → Bytes
  | text raw _ | startTag raw _ | endTag raw | comment raw _ | doctype raw _ | unfinished raw => raw

end Token

/-- Line ends as a single line feed: a carriage return is one, alone or before it. -/
def unifyLines : Bytes → Bytes
  | [] => []
  | c :: cs =>
    if c = cr then
      if cs.head? = some lf then unifyLines cs else lf :: unifyLines cs
    else c :: unifyLines cs

/-- The replacement character in place of each NUL. -/
def replaceNul (s : Bytes) : Bytes :=
  s.flatMap fun b => if b = nul then CodePoint.encode CodePoint.replacement else [b]

/-- What ordinary text shows. -/
def shownText (raw : Bytes) : Bytes := Entity.decode (unifyLines raw)

/-- What the content of a raw element shows. -/
def RawElement.shown (element : RawElement) (raw : Bytes) : Bytes :=
  let lines := replaceNul (unifyLines raw)
  if element.decodesReferences then Entity.decode lines else lines

/-- The text of a comment. -/
def shownComment (raw : Bytes) : Bytes := Entity.decode (replaceNul (unifyLines raw))

/-- A tag, a comment or a declaration starts here. -/
def markupStarts : Bytes → Bool
  | a :: b :: _ => a == lt && (isLetter b || b == slash || b == bang || b == question)
  | _ => false

/-- The text before the next markup. -/
def textSpan : Bytes → Bytes × Bytes
  | [] => ([], [])
  | c :: cs =>
    if markupStarts (c :: cs) then ([], c :: cs)
    else
      let (text, rest) := textSpan cs
      (c :: text, rest)

theorem textSpan_append (s : Bytes) : (textSpan s).1 ++ (textSpan s).2 = s := by
  induction s with
  | nil => rfl
  | cons c cs ih =>
    rw [textSpan]
    split
    · rfl
    · simp only [List.cons_append, ih]

/-- The part of `s` before its ending `rest`. -/
def consumed (s rest : Bytes) : Bytes := s.take (s.length - rest.length)

/-- The token of the start tag in `s`, whose name starts `body`. -/
def startTagToken (s body : Bytes) : Token × Bytes :=
  match tagSpan? body with
  | some (parts, rest) => (.startTag (consumed s rest) parts, rest)
  | none => (.unfinished s, [])

def commentToken (s text rest : Bytes) : Token × Bytes :=
  (.comment (consumed s rest) (shownComment text), rest)

/-- The token in `s`, which starts with `</` and goes on with `body`. Without a name it is a
comment, and without anything it is text. -/
def closingToken (s body : Bytes) : Token × Bytes :=
  match body with
  | [] => (.text s (shownText s), [])
  | c :: cs =>
    if c = gt then commentToken s [] cs
    else if isLetter c then
      match tagSpan? body with
      | some (_, rest) => (.endTag (consumed s rest), rest)
      | none => (.unfinished s, [])
    else commentToken s (angleSpan body).1 (angleSpan body).2

/-- The token in `s`, which starts with `<!` and goes on with `body`. -/
def declarationToken (s body : Bytes) : Token × Bytes :=
  match declarationSpan body with
  | (.comment text, rest) => commentToken s text rest
  | (.doctype text, rest) => (.doctype (consumed s rest) (shownText text), rest)

/-- The token of the markup that `s` starts with. -/
def markupToken (s : Bytes) : Token × Bytes :=
  match s with
  | _ :: b :: rest =>
    if isLetter b then startTagToken s (b :: rest)
    else if b = slash then closingToken s rest
    else if b = bang then declarationToken s rest
    else commentToken s (angleSpan (b :: rest)).1 (angleSpan (b :: rest)).2
  | _ => (.text s (shownText s), [])

/-- The raw element whose content follows a token. -/
def Token.opens : Token → Option RawElement
  | .startTag _ parts => RawElement.ofName? parts.name
  | _ => none

/-- The first token of `s` outside raw content, and the rest. -/
def plainToken (s : Bytes) : Token × Bytes :=
  if (textSpan s).1.isEmpty then markupToken s
  else (.text (textSpan s).1 (shownText (textSpan s).1), (textSpan s).2)

/-- The first token of `s`, where `inside` is the raw element just opened, and the rest. -/
def firstToken (inside : Option RawElement) (s : Bytes) : Token × Bytes :=
  match inside with
  | some element =>
    if (element.span s).1.isEmpty then plainToken s
    else (.text (element.span s).1 (element.shown (element.span s).1), (element.span s).2)
  | none => plainToken s

theorem length_rest_lt_of_append {s before rest : Bytes} (h : before ++ rest = s)
    (hne : before.isEmpty = false) : rest.length < s.length := by
  cases before with
  | nil => simp at hne
  | cons b before =>
    rw [← h]
    simp only [List.cons_append, List.length_cons, List.length_append]; omega

theorem length_markupToken_lt {s : Bytes} (hs : s ≠ []) :
    (markupToken s).2.length < s.length := by
  have hpos : 0 < s.length := List.length_pos_iff.mpr hs
  unfold markupToken
  split
  · rename_i a b rest
    split
    · unfold startTagToken
      split
      · rename_i h
        have := length_tagSpan?_lt h
        simp only [List.length_cons] at *; omega
      · simp
    split
    · unfold closingToken
      split
      · simp
      · rename_i c cs
        split
        · simp only [commentToken, List.length_cons]; omega
        split
        · split
          · rename_i h
            have := length_tagSpan?_lt h
            simp only [List.length_cons] at *; omega
          · simp
        · have := length_angleSpan_le (c :: cs)
          simp only [commentToken, List.length_cons] at *; omega
    split
    · unfold declarationToken
      have := length_declarationSpan_le rest
      split <;> rename_i h <;> rw [h] at this <;>
        simp only [commentToken, List.length_cons] at * <;> omega
    · have := length_angleSpan_le (b :: rest)
      simp only [commentToken, List.length_cons] at *; omega
  · simpa using hpos

theorem length_plainToken_lt {s : Bytes} (hs : s ≠ []) : (plainToken s).2.length < s.length := by
  unfold plainToken
  split
  · exact length_markupToken_lt hs
  · rename_i h
    exact length_rest_lt_of_append (textSpan_append s) (by simpa using h)

/-- A token takes at least one byte. -/
theorem length_firstToken_lt (inside : Option RawElement) {s : Bytes} (hs : s ≠ []) :
    (firstToken inside s).2.length < s.length := by
  unfold firstToken
  split
  · split
    · exact length_plainToken_lt hs
    · rename_i element h
      exact length_rest_lt_of_append (RawElement.span_append element s) (by simpa using h)
  · exact length_plainToken_lt hs

/-- The tokens of `s`, where `inside` is the raw element just opened. -/
def tokensFrom (inside : Option RawElement) (s : Bytes) : List Token :=
  if h : s = [] then []
  else
    have := length_firstToken_lt inside h
    (firstToken inside s).1 :: tokensFrom (firstToken inside s).1.opens (firstToken inside s).2
termination_by s.length

/-- The tokens of a markup text. -/
def tokens (s : Bytes) : List Token := tokensFrom none s

end DomTemplate.Markup
