import DomTemplate.Proofs.Printing
import DomTemplate.Proofs.Tokens

/-! Where tokens end. A token reaches to a `>` or up to a `<`, the content of a raw element up to
its closing tag, which is read as one, and only a start tag opens a raw element. -/

namespace DomTemplate
open Ascii Bytes

namespace Markup

/-- Where a token ends: at the end of the text, before a `<` or after a `>`. -/
def Parted (raw rest : Bytes) : Prop := rest = [] ∨ rest.head? = some lt ∨ raw.getLast? = some gt

/-- `rest` is left of `s` after a `>`, or nothing is. -/
def LeftBy (s rest : Bytes) : Prop := rest = [] ∨ gt :: rest <:+ s

theorem LeftBy.of_suffix {s t rest : Bytes} (h : LeftBy t rest) (ends : t <:+ s) : LeftBy s rest :=
  h.imp_right fun left => left.trans ends

theorem LeftBy.parted {s raw rest : Bytes} (h : LeftBy s rest) (whole : raw ++ rest = s) :
    Parted raw rest := by
  refine h.imp id fun ⟨front, split⟩ => .inr ?_
  rw [← whole, List.append_cons, List.append_cancel_right_eq] at split
  rw [← split, List.getLast?_concat]

theorem angleSpan_left (s : Bytes) : LeftBy s (angleSpan s).2 := by
  rw [angleSpan]
  have ends : s.dropWhile (· != gt) <:+ s := List.dropWhile_suffix _
  cases found : s.dropWhile (· != gt) with
  | nil => exact .inl rfl
  | cons b rest =>
    have head : (s.dropWhile (· != gt)).head? = some b := by rw [found]; rfl
    have stop := dropWhile_stops head
    rw [found, bne_eq_false_iff_eq.mp stop] at ends
    exact .inr ends

theorem commentSpan_left (dashes : Nat) (onlyDashes afterBang : Bool) (seen s : Bytes) :
    LeftBy s (commentSpan dashes onlyDashes afterBang seen s).2 := by
  induction s generalizing dashes onlyDashes afterBang seen with
  | nil => exact .inl rfl
  | cons c cs ih =>
    have later (dashes : Nat) (onlyDashes afterBang : Bool) :
        LeftBy (c :: cs) (commentSpan dashes onlyDashes afterBang (c :: seen) cs).2 :=
      (ih dashes onlyDashes afterBang (c :: seen)).of_suffix (List.suffix_cons c cs)
    rw [commentSpan]
    split
    · split
      · rename_i closed
        exact .inr (closed ▸ List.suffix_rfl)
      · exact later _ _ _
    split
    · exact later _ _ _
    split
    · rename_i closed
      exact .inr (closed.1 ▸ List.suffix_rfl)
    · exact later _ _ _

theorem declarationSpan_left (s : Bytes) : LeftBy s (declarationSpan s).2 := by
  rw [declarationSpan]
  split_ifs
  · exact .inl rfl
  · exact (commentSpan_left 0 true false [] (s.drop 2)).of_suffix (List.drop_suffix _ _)
  · exact (angleSpan_left _).of_suffix
      ((List.dropWhile_suffix _).trans (List.drop_suffix _ _))
  · exact .inl rfl
  · exact angleSpan_left s

theorem tagSpan?_left {s rest : Bytes} {parts : TagParts} (h : tagSpan? s = some (parts, rest)) :
    LeftBy s rest := .inr (tagSpan?_suffix h)

theorem markupToken_left (s : Bytes) : LeftBy s (markupToken s).2 := by
  rcases s with _ | ⟨a, _ | ⟨b, rest⟩⟩
  · exact .inl rfl
  · exact .inl rfl
  have one : b :: rest <:+ a :: b :: rest := List.suffix_cons _ _
  have two : rest <:+ a :: b :: rest := (List.suffix_cons _ _).trans one
  rw [markupToken]
  split_ifs with letter slashed banged
  · rw [startTagToken]
    split
    · rename_i found
      exact (tagSpan?_left found).of_suffix one
    · exact .inl rfl
  · cases rest with
    | nil => exact .inl rfl
    | cons c cs =>
      rw [closingToken]
      split_ifs with empty named
      · exact .inr (empty ▸ two)
      · split
        · rename_i found
          exact (tagSpan?_left found).of_suffix two
        · exact .inl rfl
      · exact (angleSpan_left (c :: cs)).of_suffix two
  · have left := (declarationSpan_left rest).of_suffix two
    rw [declarationToken]
    split <;> rename_i found <;> rw [found] at left <;> exact left
  · exact (angleSpan_left (b :: rest)).of_suffix one

theorem firstToken_parted (inside : Option RawElement) (s : Bytes) :
    Parted (firstToken inside s).1.raw (firstToken inside s).2 := by
  have angle {rest : Bytes} (head : ∀ b, rest.head? = some b → b = lt) (raw : Bytes) :
      Parted raw rest := by
    cases rest with
    | nil => exact .inl rfl
    | cons b rest => exact .inr (.inl (by rw [head b rfl]; rfl))
  have plain : Parted (plainToken s).1.raw (plainToken s).2 := by
    rw [plainToken]
    split
    · exact (markupToken_left s).parted (markupToken_reads s).1
    · exact angle (fun b => head_textSpan) _
  unfold firstToken
  split
  · split
    · exact plain
    · exact angle (fun b => head_span) _
  · exact plain

/-- What a closing tag starts with. -/
theorem RawElement.closesHere_spec {e : RawElement} {s : Bytes} (h : closesHere e.name s = true) :
    ∃ c rest, s = lt :: slash :: c :: rest ∧ isLetter c = true ∧
      Bytes.startsWithFold (c :: rest) e.name = true := by
  rcases s with _ | ⟨a, _ | ⟨b, rest⟩⟩
  · cases h
  · cases h
  simp only [closesHere, Bool.and_eq_true, beq_iff_eq] at h
  obtain ⟨⟨rfl, rfl⟩, starts⟩ := h
  have named : Bytes.startsWithFold rest e.name = true := (Bool.and_eq_true_iff.mp starts).1
  obtain ⟨t, b, after, rfl, same, -⟩ := startsName_spec starts
  have letter : ∀ c, isLetter (Ascii.lower c) = true → isLetter c = true :=
    forall_byte (by decide +kernel)
  have first : ((Bytes.lower e.name).head?.all isLetter) = true ∧ Bytes.lower e.name ≠ [] := by
    cases e <;> decide +kernel
  rw [← same] at first
  cases t with
  | nil => exact absurd rfl first.2
  | cons c t => exact ⟨c, t ++ b :: after, rfl, letter c first.1, named⟩

/-- A closing tag is read as one, or is cut off. -/
theorem plainToken_closes {e : RawElement} {s : Bytes} (h : closesHere e.name s = true) :
    ∃ raw, (plainToken s).1 = .endTag raw ∨ (plainToken s).1 = .unfinished raw := by
  obtain ⟨c, rest, rfl, letter, -⟩ := RawElement.closesHere_spec h
  have noClose : c ≠ gt := by
    rintro rfl
    exact absurd letter (by decide)
  have first : plainToken (lt :: slash :: c :: rest) =
      closingToken (lt :: slash :: c :: rest) (c :: rest) := rfl
  rw [first, closingToken, if_neg noClose, if_pos letter]
  split
  · exact ⟨_, .inl rfl⟩
  · exact ⟨_, .inr rfl⟩

theorem markupToken_startTag {s raw : Bytes} {parts : TagParts}
    (h : (markupToken s).1 = .startTag raw parts) :
    ∃ a c body rest, s = a :: c :: body ∧ isLetter c = true ∧
      tagSpan? (c :: body) = some (parts, rest) ∧
      markupToken s = (.startTag (consumed s rest) parts, rest) := by
  rcases s with _ | ⟨a, _ | ⟨c, body⟩⟩
  · cases h
  · cases h
  rw [markupToken] at h ⊢
  split_ifs at h ⊢ with letter slashed banged
  · rw [startTagToken] at h ⊢
    split at h
    · rename_i rest found
      cases h
      exact ⟨a, c, body, rest, rfl, letter, found, rfl⟩
    · cases h
  · unfold closingToken at h
    split at h
    · cases h
    split_ifs at h
    · cases h
    · split at h <;> cases h
    · cases h
  · unfold declarationToken at h
    split at h <;> cases h
  · cases h

/-- A tag starts only where markup does. -/
theorem firstToken_eq_markupToken {inside : Option RawElement} {s raw : Bytes} {parts : TagParts}
    (h : (firstToken inside s).1 = .startTag raw parts) :
    firstToken inside s = markupToken s ∧ s.head? = some lt := by
  have plain (h : (plainToken s).1 = .startTag raw parts) :
      plainToken s = markupToken s ∧ s.head? = some lt := by
    unfold plainToken at h ⊢
    split at h
    · rename_i empty
      refine ⟨if_pos empty, ?_⟩
      cases s with
      | nil => cases h
      | cons c cs =>
        have starts : markupStarts (c :: cs) = true := by
          by_contra not
          rw [textSpan, if_neg not] at empty
          cases empty
        rw [List.head?_cons, head_of_markupStarts starts]
    · cases h
  unfold firstToken at h ⊢
  split at h
  · split at h
    · rename_i empty
      simpa only [empty, if_true] using plain h
    · cases h
  · exact plain h

theorem firstToken_startTag {inside : Option RawElement} {s raw : Bytes} {parts : TagParts}
    (h : (firstToken inside s).1 = .startTag raw parts) :
    ∃ c body rest, s = lt :: c :: body ∧ isLetter c = true ∧
      tagSpan? (c :: body) = some (parts, rest) ∧
      firstToken inside s = (.startTag (consumed s rest) parts, rest) := by
  obtain ⟨markup, head⟩ := firstToken_eq_markupToken h
  rw [markup] at h ⊢
  obtain ⟨a, c, body, rest, rfl, letter, found, token⟩ := markupToken_startTag h
  cases head
  exact ⟨c, body, rest, rfl, letter, found, token⟩

/-- A token that opens a raw element is a start tag. -/
theorem firstToken_opens {inside : Option RawElement} {s : Bytes} {e : RawElement}
    (h : (firstToken inside s).1.opens = some e) :
    ∃ c body parts rest, s = lt :: c :: body ∧ isLetter c = true ∧
      tagSpan? (c :: body) = some (parts, rest) ∧ RawElement.ofName? parts.name = some e ∧
      firstToken inside s = (.startTag (consumed s rest) parts, rest) := by
  cases token : (firstToken inside s).1 with
  | startTag raw parts =>
    rw [token] at h
    obtain ⟨c, body, rest, whole, letter, found, first⟩ := firstToken_startTag token
    exact ⟨c, body, parts, rest, whole, letter, found, h, first⟩
  | text | endTag | comment | doctype | unfinished => rw [token] at h; cases h

end Markup

end DomTemplate
