import DomTemplate.Template.Masked

/-! The marks of code blocks in a text that was read from masked markup. A text splits at
its marks into literal pieces and blocks. A character reference can write a mark that
no block has: it is malformed, unless its number is negative, which no text survives. -/

namespace DomTemplate
open Ascii

/-- The first mark of a text. -/
inductive FirstMark where
  | none
  /-- The text before the mark, the block, and the text after it. -/
  | block (head : Bytes) (offset : Nat) (block : Block) (rest : Bytes)
  | malformed
  | negative (number : Int)
  deriving DecidableEq, Repr

/-- The text before a mark, without the lead that belongs to the mark. -/
def Block.headOf (b : Block) (head : Bytes) : Bytes :=
  if b.lead then Bytes.trimSuffix tagLead head else head

/-- The first mark of `s` among the marks of `blocks`. -/
def firstMark (blocks : List (Nat × Block)) (s : Bytes) : FirstMark :=
  match Bytes.cut? markOpen s with
  | none => .none
  | some (head, after) =>
    match Bytes.cut? markClose after with
    | none => .malformed
    | some (number, rest) =>
      match Bytes.int64? number with
      | none => .malformed
      | some n =>
        if n < 0 then .negative n
        else match blocks[n.toNat]? with
          | some (offset, b) => .block (b.headOf head) offset b rest
          | none => .malformed

theorem length_rest_firstMark {blocks : List (Nat × Block)} {s head rest : Bytes} {offset : Nat}
    {b : Block} (h : firstMark blocks s = .block head offset b rest) : rest.length < s.length := by
  unfold firstMark at h
  split at h
  · simp at h
  rename_i before after hopen
  have hafter := Bytes.length_cut?_lt (by decide) hopen
  split at h
  · simp at h
  rename_i number tail hclose
  have htail := Bytes.length_cut?_lt (by decide) hclose
  split at h
  · simp at h
  split at h
  · simp at h
  split at h
  · simp only [FirstMark.block.injEq] at h
    rw [← h.2.2.2]; omega
  · simp at h

/-- The literal pieces and code blocks of `s`. -/
def expand (src : Bytes) (blocks : List (Nat × Block)) (s : Bytes) : Except Failure (List Part) :=
  if s.isEmpty then .ok []
  else match h : firstMark blocks s with
    | .none => .ok [.raw s]
    | .malformed => .error (.refused (.malformedMark s))
    | .negative n => .error (.crashed (.indexOutOfRange n))
    | .block head offset b rest =>
      have := length_rest_firstMark h
      (expand src blocks rest).map fun parts =>
        let code := Part.code ⟨b.kind, b.source, Pos.ofOffset src offset⟩
        if head.isEmpty then code :: parts else .raw head :: code :: parts
termination_by s.length

/-- `s` with each mark replaced by its block as written. A malformed mark and what follows
it stay as they are. -/
def unmask (blocks : List (Nat × Block)) (s : Bytes) : Except Failure Bytes :=
  match h : firstMark blocks s with
  | .none | .malformed => .ok s
  | .negative n => .error (.crashed (.indexOutOfRange n))
  | .block head _ b rest =>
    have := length_rest_firstMark h
    (unmask blocks rest).map fun tail => head ++ b.written ++ tail
termination_by s.length

end DomTemplate
