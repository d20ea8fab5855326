import DomTemplate.Diagnostic
import DomTemplate.Proofs.ErrorPlaces
import DomTemplate.Proofs.Failures
import DomTemplate.Proofs.Paths
import Mathlib.Data.List.DropRight

/-! Where the caret of a report stands. A report shows the line of its place without the carriage
returns at its end, and the caret line below. Errors point at no line end, so the byte that they are
about is one of the line that is shown. The gutters are of one length, and the white space behind them
has a tab where the line has one: the caret is below that byte, however wide tabs are. -/

namespace DomTemplate
open Ascii Bytes

/-- Behind `before`, `src` goes on with the line `shown`, the carriage returns that end it, and
`after`. -/
structure Bytes.LineAt (src before shown returns after : Bytes) : Prop where
  split : src = before ++ (shown ++ returns ++ after)
  starts : before = [] ∨ before.getLast? = some lf
  unbroken : lf ∉ shown
  returns_eq : ∀ b ∈ returns, b = cr
  bare : shown.getLast? ≠ some cr
  stops : after = [] ∨ after.head? = some lf

/-- The line that follows `before` is the piece behind as many line feeds as `before` has. -/
theorem Bytes.splitOn_at_line {before shown after : Bytes} (starts : before = [] ∨ before.getLast? = some lf)
    (unbroken : lf ∉ shown) (stops : after = [] ∨ after.head? = some lf) :
    (splitOn lf (before ++ (shown ++ after)))[before.count lf]? = some shown := by
  have first : ∃ rest, splitOn lf (shown ++ after) = shown :: rest := by
    rcases stops with rfl | head
    · exact ⟨[], by rw [List.append_nil, splitOn_of_not_mem unbroken]⟩
    · obtain ⟨after, rfl⟩ := List.head?_eq_some_iff.mp head
      exact ⟨_, by rw [splitOn_append, splitOn_of_not_mem unbroken]; rfl⟩
  obtain ⟨rest, pieces⟩ := first
  rcases starts with rfl | last
  · rw [List.nil_append, pieces]
    rfl
  · obtain ⟨lines, rfl⟩ := List.getLast?_eq_some_iff.mp last
    have count : (lines ++ [lf]).count lf = (splitOn lf lines).length := by
      rw [length_splitOn, List.count_append, List.count_singleton_self]
      omega
    rw [count, List.append_assoc, List.singleton_append, splitOn_append, pieces]
    simp

theorem Bytes.dropWhileRight_returns {shown returns : Bytes} (returns_eq : ∀ b ∈ returns, b = cr)
    (bare : shown.getLast? ≠ some cr) : dropWhileRight (· == cr) (shown ++ returns) = shown := by
  have same : shown.rdropWhile (· == cr) = shown := by
    rw [List.rdropWhile_eq_self_iff]
    intro nonempty last
    rw [List.getLast?_eq_some_getLast nonempty] at bare
    exact bare (congrArg some (eq_of_beq last))
  rw [dropWhileRight, List.reverse_append, List.dropWhile_append_of_pos]
  · exact same
  · intro b mem
    rw [returns_eq b (List.mem_reverse.mp mem), beq_self_eq_true]

theorem Bytes.LineAt.sourceLine? {src before shown returns after : Bytes}
    (h : LineAt src before shown returns after) :
    Diagnostic.sourceLine? src (1 + before.count lf) = some shown := by
  have unbroken : lf ∉ shown ++ returns := by
    intro mem
    rcases List.mem_append.mp mem with here | there
    · exact h.unbroken here
    · exact absurd (h.returns_eq lf there) (by decide)
  rw [Diagnostic.sourceLine?, if_neg (by omega), show (1 + (before.count lf : Int)).toNat - 1 =
    before.count lf by omega, h.split, splitOn_at_line h.starts unbroken h.stops, Option.map_some,
    dropWhileRight_returns h.returns_eq h.bare]

/-- A line with the carriage returns at its end taken off. -/
theorem Bytes.exists_lineAt {before whole after : Bytes} (starts : before = [] ∨ before.getLast? = some lf)
    (unbroken : lf ∉ whole) (stops : after = [] ∨ after.head? = some lf) :
    ∃ shown returns, whole = shown ++ returns ∧
      LineAt (before ++ (whole ++ after)) before shown returns after := by
  have split : whole.rdropWhile (· == cr) ++ whole.rtakeWhile (· == cr) = whole :=
    List.rdropWhile_append_rtakeWhile
  refine ⟨_, _, split.symm, by rw [split], starts,
    fun mem => unbroken ((List.rdropWhile_prefix _ _).subset mem), fun b mem => ?_, fun last => ?_, stops⟩
  · exact eq_of_beq (List.mem_rtakeWhile_imp (p := fun b => b == cr) mem)
  · obtain ⟨front, ends⟩ := List.getLast?_eq_some_iff.mp last
    have nonempty : whole.rdropWhile (· == cr) ≠ [] := by simp [ends]
    have kept := List.rdropWhile_last_not (fun b => b == cr) whole nonempty
    simp [ends] at kept

/-- A line ends with the source or at the next line feed, and what is no line end shows in it. -/
theorem Bytes.exists_lineAt_byte {before front : Bytes} {b : UInt8} (back : Bytes)
    (starts : before = [] ∨ before.getLast? = some lf) (unbroken : lf ∉ front) (ink : IsInk b) :
    ∃ shown returns after, LineAt (before ++ (front ++ b :: back)) before shown returns after ∧
      shown[front.length]? = some b := by
  have behind := List.takeWhile_append_dropWhile (p := fun b => b != lf) (l := back)
  generalize tail : back.takeWhile (fun b => b != lf) = more at behind
  generalize ended : back.dropWhile (fun b => b != lf) = after at behind
  have stops : after = [] ∨ after.head? = some lf := by
    cases after with
    | nil => exact .inl rfl
    | cons c after =>
      have head : (back.dropWhile (fun b => b != lf)).head? = some c := by rw [ended]; rfl
      exact .inr (by simpa using dropWhile_stops head)
  have whole : lf ∉ front ++ b :: more := by
    rw [List.mem_append, List.mem_cons, not_or, not_or, ← tail]
    exact ⟨unbroken, ink.1.symm, fun mem => absurd (List.mem_takeWhile_imp mem) (by simp)⟩
  obtain ⟨shown, returns, joined, lineAt⟩ := exists_lineAt starts whole stops
  rw [List.append_assoc, List.cons_append, behind] at lineAt
  refine ⟨shown, returns, after, lineAt, ?_⟩
  have found : (shown ++ returns)[front.length]? = some b := by
    rw [← joined]
    simp
  rw [List.getElem?_append] at found
  split at found
  · exact found
  · exact absurd (lineAt.returns_eq b (List.mem_of_getElem? found)) ink.2

/-- The source is what precedes the line of a place, that line up to the byte there, and the rest. -/
theorem Pos.IsAt.split {src : Bytes} {off : Nat} {pos : Pos} {b : UInt8} (h : pos.IsAt src off)
    (byte : src[off]? = some b) :
    ∃ before front back, src = before ++ (front ++ b :: back) ∧
      (before = [] ∨ before.getLast? = some lf) ∧ lf ∉ front ∧
      pos.offset = (before.length + front.length : Nat) ∧ pos.line = 1 + before.count lf ∧
      pos.col = front.length + 1 := by
  obtain ⟨start, le, column, starts, unbroken⟩ := h.col
  generalize sofar : (src.take off).drop start = front at unbroken
  have before : src.take off = src.take start ++ front := by
    have parts := List.take_append_drop start (src.take off)
    rw [List.take_take, Nat.min_eq_left le, sofar] at parts
    exact parts.symm
  have here : src.drop off = b :: src.drop (off + 1) := by
    rw [List.drop_eq_getElem?_toList_append, byte]
    rfl
  have size : (src.take start).length = start :=
    List.length_take_of_le (Nat.le_trans le (Nat.le_of_lt h.inside))
  have length : front.length = off - start := by
    have sizes := congrArg List.length before
    rw [List.length_take_of_le (Nat.le_of_lt h.inside), List.length_append, size] at sizes
    omega
  refine ⟨src.take start, front, src.drop (off + 1), ?_, ?_, unbroken, ?_, ?_, ?_⟩
  · rw [← List.append_assoc, ← before, ← here, List.take_append_drop]
  · rcases starts with rfl | feed
    · exact .inl rfl
    · rw [List.getLast?_take, feed, Option.some_or]
      split
      · rename_i zero
        exact .inl (by rw [zero, List.take_zero])
      · exact .inr rfl
  · rw [h.offset, size, length, Nat.add_sub_cancel' le]
  · rw [h.line, before, List.count_append, List.count_eq_zero.mpr unbroken, Nat.add_zero]
  · rw [column, length]
    omega

namespace Diagnostic

/-- What stands before the line with number `n` where it is shown. -/
def gutter (n : Int) : Bytes := lineNumber n ++ utf8 " | "

/-- What stands before the caret below that line. -/
def caretGutter (n : Int) : Bytes := Bytes.replicate (lineNumber n).length space ++ utf8 " | "

theorem length_caretGutter (n : Int) : (caretGutter n).length = (gutter n).length := by
  simp [gutter, caretGutter, Bytes.replicate]

theorem excerpt_eq {src shown : Bytes} {pos : Pos} (h : sourceLine? src pos.line = some shown) :
    excerpt src pos = gutter pos.line ++ shown ++ [lf] ++
      (caretGutter pos.line ++ caretIndent shown pos.col ++ utf8 "^\n") := by
  rw [excerpt, h]
  simp [gutter, caretGutter]

/-- White space has a tab where the line has one. -/
def tabbed (b : UInt8) : UInt8 := if b = tab then tab else space

theorem caretIndent_eq (shown : Bytes) (col : Nat) :
    caretIndent shown (col + 1) = (shown.take col).map tabbed := by
  rw [caretIndent, show ((col : Int) + 1 - 1).toNat = col by omega]
  rfl

/-- The report on `src` ends with the line of `pos`, byte `col` of which is the byte at `pos`, and a
caret line. The caret stands behind a gutter as long as that of the line, and white space as wide as what
precedes the byte. -/
def PointsAt (path src : Bytes) (d : Diagnostic) (pos : Pos) : Prop :=
  ∃ before shown returns after col b indent,
    Bytes.LineAt src before shown returns after ∧
    pos.offset = (before.length + col : Nat) ∧ pos.line = 1 + before.count lf ∧ pos.col = col + 1 ∧
    col < shown.length ∧ shown[col]? = some b ∧ src[before.length + col]? = some b ∧
    d.render path src = path ++ utf8 ": error: " ++ d.message ++ [lf] ++
      (gutter pos.line ++ shown ++ [lf] ++ (caretGutter pos.line ++ indent ++ utf8 "^\n")) ∧
    (caretGutter pos.line).length = (gutter pos.line).length ∧ indent.length = col ∧
    ∀ i < col, indent[i]? = some (if shown[i]? = some tab then tab else space)

/-- A template that is refused at a place is refused with a caret below the byte there. -/
theorem caret_below_byte (p : Pipeline) (path src : Bytes) {e : TemplateError} {pos : Pos}
    (refused : p.intents src = .error (.refused e)) (placed : (ofError e).position = some pos) :
    PointsAt path src (ofError e) pos := by
  obtain ⟨off, b, at_, byte, ink⟩ := p.intents_shown refused pos placed
  obtain ⟨before, front, back, rfl, starts, unbroken, offset, number, column⟩ := at_.split byte
  obtain ⟨shown, returns, after, lineAt, there⟩ := Bytes.exists_lineAt_byte back starts unbroken ink
  have inside : front.length < shown.length := (List.getElem?_eq_some_iff.mp there).1
  refine ⟨before, shown, returns, after, front.length, b, (shown.take front.length).map tabbed, lineAt,
    offset, number, column, inside, there, by simp, ?_, length_caretGutter _, ?_, fun i below => ?_⟩
  · rw [← caretIndent_eq, ← column, ← excerpt_eq (number ▸ lineAt.sourceLine?), render, placed]
  · rw [List.length_map, List.length_take_of_le (Nat.le_of_lt inside)]
  · have bound : i < shown.length := Nat.lt_trans below inside
    rw [List.getElem?_map, List.getElem?_take_of_lt below, List.getElem?_eq_getElem bound,
      Option.map_some, tabbed]
    simp

/-- The second line closes an element that is not the innermost one, behind a tab; lines end with a
carriage return and a line feed. -/
def crossedTags : Bytes := utf8 "<b>\r\n\t<i></b>\r\n"

theorem caret_below_byte_crossed_tags :
    ∃ e, Pipeline.barePipeline.intents crossedTags = .error (.refused e) ∧
      (ofError e).position = some ⟨9, 2, 5⟩ ∧
      PointsAt (utf8 "a.erb") crossedTags (ofError e) ⟨9, 2, 5⟩ := by
  have failed : (Pipeline.barePipeline.intents crossedTags).map (fun _ => ()) =
      .error (.refused (.unbalancedTag ⟨9, 2, 5⟩ (utf8 "b") (utf8 "i") .mismatch)) := by
    decide +kernel
  have refused : Pipeline.barePipeline.intents crossedTags =
      .error (.refused (.unbalancedTag ⟨9, 2, 5⟩ (utf8 "b") (utf8 "i") .mismatch)) := by
    cases result : Pipeline.barePipeline.intents crossedTags with
    | ok c => rw [result] at failed; cases failed
    | error f => rw [result] at failed; cases failed; rfl
  exact ⟨_, refused, rfl, caret_below_byte _ _ _ refused rfl⟩

end Diagnostic
end DomTemplate
