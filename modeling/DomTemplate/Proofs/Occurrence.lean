import DomTemplate.Text.Blank
import DomTemplate.Proofs.Cutting
import DomTemplate.Proofs.Replacement
import Mathlib.Data.List.Infix
import Mathlib.Data.List.TakeWhile

/-! Where a text occurs in a longer one. Texts are put together from pieces, and an occurrence
may lie across a seam. It cannot if the piece before the seam is closed: no end of it begins the
text that is looked for. -/

namespace DomTemplate.Bytes
open Ascii

/-- `sub` does not occur in `s`. -/
def Avoids (s sub : Bytes) : Prop := ¬sub <:+: s

/-- No occurrence of `sub` begins in `s` and ends after it. -/
def Closed (s sub : Bytes) : Prop := ∀ u, u <:+ s → u ≠ [] → ¬u <+: sub

/-- No occurrence of `sub` begins in `s`, whatever follows. -/
structure Sealed (s sub : Bytes) : Prop where
  avoids : s.Avoids sub
  closed : s.Closed sub

/-- The number of occurrences of `sub`, which may overlap. -/
def occurrences (sub : Bytes) : Bytes → Nat
  | [] => 0
  | c :: s => (if sub <+: c :: s then 1 else 0) + occurrences sub s

variable {sub a b s t : Bytes}

theorem Avoids.inside (h : Avoids s sub) (inside : t <:+: s) : Avoids t sub :=
  fun occurs => h (occurs.trans inside)

instance (s sub : Bytes) : Decidable (Avoids s sub) := inferInstanceAs (Decidable (¬sub <:+: s))

instance (s sub : Bytes) : Decidable (Closed s sub) :=
  decidable_of_iff (∀ u ∈ s.tails, u ≠ [] → ¬u <+: sub) (by simp only [List.mem_tails, Closed])

instance (s sub : Bytes) : Decidable (Sealed s sub) :=
  decidable_of_iff (Avoids s sub ∧ Closed s sub)
    ⟨fun h => ⟨h.1, h.2⟩, fun h => ⟨h.avoids, h.closed⟩⟩

theorem avoids_nil (nonempty : sub ≠ []) : Avoids [] sub :=
  fun occurs => nonempty (List.infix_nil.mp occurs)

theorem closed_of_last {x : UInt8} (last : s.getLast? = some x) (absent : x ∉ sub) :
    Closed s sub := by
  intro u ending nonempty begins
  have same : u.getLast? = some x := by
    obtain ⟨v, rfl⟩ := ending
    rwa [List.getLast?_append_of_ne_nil _ nonempty] at last
  exact absent (begins.subset (List.mem_of_getLast? same))

theorem Closed.append (ha : Closed a sub) (hb : Closed b sub) : Closed (a ++ b) sub := by
  intro u ending nonempty begins
  rcases List.suffix_or_suffix_of_suffix ending (List.suffix_append a b) with short | ⟨v, rfl⟩
  · exact hb u short nonempty begins
  · obtain ⟨w, whole⟩ := ending
    rw [← List.append_assoc, List.append_cancel_right_eq] at whole
    by_cases empty : v = []
    · subst empty
      exact hb b List.suffix_rfl nonempty begins
    · exact ha v ⟨w, whole⟩ empty ((List.prefix_append v b).trans begins)

/-- An occurrence lies on one side of a closed piece's end. -/
theorem Closed.occurrence_append {before after : Bytes} (closed : Closed a sub)
    (nonempty : sub ≠ []) (whole : a ++ b = before ++ sub ++ after) :
    (∃ v, a = before ++ sub ++ v) ∨ ∃ u, before = a ++ u ∧ b = u ++ sub ++ after := by
  rw [List.append_assoc, List.append_eq_append_iff] at whole
  rcases whole with ⟨u, rfl, rest⟩ | ⟨u, rfl, rest⟩
  · exact .inr ⟨u, rfl, by rw [rest, List.append_assoc]⟩
  · rcases List.append_eq_append_iff.mp rest with ⟨w, rfl, -⟩ | ⟨w, rfl, rest'⟩
    · exact .inl ⟨w, (List.append_assoc ..).symm⟩
    · by_cases empty : u = []
      · subst empty
        exact .inr ⟨[], by simp, by simpa using rest'⟩
      · exact absurd (List.prefix_append u w) (closed u (List.suffix_append _ _) empty)

theorem occurrences_append (closed : Closed a sub) (b : Bytes) :
    occurrences sub (a ++ b) = occurrences sub a + occurrences sub b := by
  induction a with
  | nil => rw [List.nil_append, occurrences, Nat.zero_add]
  | cons c a ih =>
    have rest := ih fun u ending => closed u (ending.trans (List.suffix_cons c a))
    have same : sub <+: c :: a ++ b ↔ sub <+: c :: a := by
      refine ⟨fun begins => ?_, fun begins => begins.trans (List.prefix_append _ b)⟩
      refine (List.prefix_or_prefix_of_prefix begins (List.prefix_append _ b)).resolve_right ?_
      exact closed _ List.suffix_rfl (List.cons_ne_nil c a)
    rw [List.cons_append, occurrences, occurrences, ← List.cons_append, rest, Nat.add_assoc]
    simp only [same]

theorem occurrences_eq_zero (h : Avoids s sub) : occurrences sub s = 0 := by
  induction s with
  | nil => rfl
  | cons c s ih =>
    rw [occurrences, ih (h.inside (List.suffix_cons c s).isInfix),
      if_neg fun begins => h begins.isInfix]

/-- A text without the first byte of `sub`. -/
theorem sealed_of_not_mem {x : UInt8} (first : sub.head? = some x) (absent : x ∉ s) :
    Sealed s sub := by
  obtain ⟨rest, rfl⟩ := List.head?_eq_some_iff.mp first
  refine ⟨fun occurs => absent (occurs.subset List.mem_cons_self), ?_⟩
  rintro u ending nonempty begins
  obtain ⟨c, u, rfl⟩ := List.exists_cons_of_ne_nil nonempty
  obtain ⟨rfl, -⟩ := List.cons_prefix_cons.mp begins
  exact absent (ending.subset List.mem_cons_self)

theorem Sealed.append_avoids (ha : Sealed a sub) (hb : Avoids b sub) (nonempty : sub ≠ []) :
    Avoids (a ++ b) sub := by
  rintro ⟨before, after, whole⟩
  rcases ha.closed.occurrence_append nonempty whole.symm with ⟨v, rfl⟩ | ⟨u, -, rfl⟩
  · exact ha.avoids ⟨before, v, rfl⟩
  · exact hb ⟨u, after, rfl⟩

theorem Sealed.append (ha : Sealed a sub) (hb : Sealed b sub) (nonempty : sub ≠ []) :
    Sealed (a ++ b) sub :=
  ⟨ha.append_avoids hb.avoids nonempty, ha.closed.append hb.closed⟩

/-- A byte that is not in `sub` ends whatever was begun. -/
theorem Avoids.concat {c : UInt8} (ha : Avoids a sub) (absent : c ∉ sub) (nonempty : sub ≠ []) :
    Sealed (a ++ [c]) sub := by
  refine ⟨fun occurs => ?_, closed_of_last List.getLast?_concat absent⟩
  rcases List.infix_concat_iff.mp occurs with ending | inside
  · obtain empty | ⟨t, rfl, -⟩ := List.suffix_concat_iff.mp ending
    · exact nonempty empty
    · exact absent (List.mem_append_right t List.mem_cons_self)
  · exact ha inside

theorem Avoids.append (ha : Avoids a sub) (hb : Avoids b sub) (nonempty : sub ≠ [])
    (apart : ∀ c, b.head? = some c → c ∉ sub) : Avoids (a ++ b) sub := by
  cases b with
  | nil => rwa [List.append_nil]
  | cons c b =>
    rw [List.append_cons]
    have rest := hb.inside (List.suffix_cons c b).isInfix
    exact (ha.concat (apart c rfl) nonempty).append_avoids rest nonempty

theorem avoids_join {c : UInt8} {lines : List Bytes} (absent : c ∉ sub) (nonempty : sub ≠ [])
    (each : ∀ line ∈ lines, Avoids line sub) : Avoids (join [c] lines) sub := by
  induction lines with
  | nil => exact avoids_nil nonempty
  | cons line lines ih =>
    have rest := ih fun other mem => each other (List.mem_cons_of_mem _ mem)
    have first := each line List.mem_cons_self
    cases lines with
    | nil => simpa [join] using first
    | cons next lines =>
      have split : join [c] (line :: next :: lines) =
          line ++ [c] ++ join [c] (next :: lines) := by simp [join]
      rw [split]
      exact (first.concat absent nonempty).append_avoids rest nonempty

/-- The first piece of a split text begins it, and the others lie inside. -/
theorem splitOn_pieces (sep : UInt8) (s : Bytes) :
    ∃ first rest, splitOn sep s = first :: rest ∧ first <+: s ∧ ∀ piece ∈ rest, piece <:+: s := by
  induction s with
  | nil => exact ⟨[], [], rfl, List.prefix_rfl, by simp⟩
  | cons c s ih =>
    obtain ⟨first, rest, split, begins, inside⟩ := ih
    have later : ∀ piece, piece <:+: s → piece <:+: c :: s := fun _ =>
      (·.trans (List.suffix_cons c s).isInfix)
    rw [splitOn, split]
    by_cases same : c = sep
    · rw [if_pos same]
      refine ⟨[], first :: rest, rfl, List.nil_prefix, fun piece mem => later piece ?_⟩
      rcases List.mem_cons.mp mem with rfl | mem
      · exact begins.isInfix
      · exact inside piece mem
    · rw [if_neg same]
      exact ⟨c :: first, rest, rfl, List.cons_prefix_cons.mpr ⟨rfl, begins⟩,
        fun piece mem => later piece (inside piece mem)⟩

theorem isInfix_of_mem_splitOn {sep : UInt8} {piece : Bytes} (h : piece ∈ splitOn sep s) :
    piece <:+: s := by
  obtain ⟨first, rest, split, begins, inside⟩ := splitOn_pieces sep s
  rw [split] at h
  rcases List.mem_cons.mp h with rfl | mem
  · exact begins.isInfix
  · exact inside piece mem

theorem dropLeading_suffix (set : List Bytes) (s : Bytes) : dropLeading set s <:+ s := by
  fun_induction dropLeading set s with
  | case1 s rest found shorter ih =>
    obtain ⟨blank, -, dropped⟩ := List.exists_of_findSome?_eq_some found
    exact ih.trans ⟨blank, (dropPrefix?_eq_some.mp dropped).symm⟩
  | case2 | case3 => exact List.suffix_rfl

theorem isInfix_trim (s : Bytes) : trim s <:+: s := by
  have left : trimLeft s <:+ s := dropLeading_suffix blanks s
  have right : trim s <+: trimLeft s := by
    rw [← List.reverse_suffix, trim, trimRight, List.reverse_reverse]
    exact dropLeading_suffix _ _
  exact right.isInfix.trans left.isInfix

end DomTemplate.Bytes

namespace DomTemplate
open Bytes

/-- The rule leaves nothing of `sub` begun, and writes nothing of it at the start that its
pattern does not begin with. -/
structure Rule.Blunts (rule : Rule) (sub : Bytes) : Prop where
  ends : Sealed rule.output sub
  other : ∃ b ∈ rule.output, b ∉ sub
  starts : rule.output.takeWhile (· ∈ sub) <+: rule.pattern

instance (rule : Rule) (sub : Bytes) : Decidable (rule.Blunts sub) :=
  decidable_of_iff (Sealed rule.output sub ∧ (∃ b ∈ rule.output, b ∉ sub) ∧
    rule.output.takeWhile (· ∈ sub) <+: rule.pattern)
    ⟨fun h => ⟨h.1, h.2.1, h.2.2⟩, fun h => ⟨h.ends, h.other, h.starts⟩⟩

namespace Rule.Replaced
variable {rules : List Rule} {s t sub : Bytes}

/-- Bytes of `sub` that begin a replaced text begin the text. -/
theorem begins (h : Replaced rules s t) (blunt : ∀ rule ∈ rules, rule.Blunts sub) {p : Bytes}
    (front : p <+: t) (inside : ∀ b ∈ p, b ∈ sub) : p <+: s := by
  induction h generalizing p with
  | nil => exact front
  | @keep c s t unruled rest ih =>
    cases p with
    | nil => exact List.nil_prefix
    | cons b p =>
      obtain ⟨rfl, rest_front⟩ := List.cons_prefix_cons.mp front
      exact List.cons_prefix_cons.mpr
        ⟨rfl, ih rest_front fun b mem => inside b (List.mem_cons_of_mem _ mem)⟩
  | @apply rule s t mem rest ih =>
    obtain ⟨-, ⟨x, here, absent⟩, starts⟩ := blunt rule mem
    -- the output holds a byte that is not in `sub`, and `p` ends before it
    have shorter : (rule.output.takeWhile (· ∈ sub)).length ≠ rule.output.length := by
      intro same
      have all := (List.takeWhile_prefix (· ∈ sub)).eq_of_length same
      exact absent (by simpa using List.takeWhile_eq_self_iff.mp all x here)
    have first : p <+: rule.output.takeWhile (· ∈ sub) := by
      obtain ⟨k, whole⟩ := front
      have front := congrArg (List.takeWhile (· ∈ sub)) whole
      rw [List.takeWhile_append_of_pos (by simpa using inside), List.takeWhile_append,
        if_neg shorter] at front
      exact ⟨_, front⟩
    exact (first.trans starts).trans (List.prefix_append _ s)

/-- A replaced text avoids what the rules take out, and what the text avoided already. -/
theorem avoids (h : Replaced rules s t) (blunt : ∀ rule ∈ rules, rule.Blunts sub)
    (nonempty : sub ≠ []) (absent : (∃ rule ∈ rules, rule.pattern = sub) ∨ Avoids s sub) :
    Avoids t sub := by
  induction h with
  | nil => exact avoids_nil nonempty
  | @keep c s t unruled rest ih =>
    have later := ih (absent.imp_right fun h => h.inside (List.suffix_cons c s).isInfix)
    intro occurs
    rcases List.infix_cons_iff.mp occurs with front | inside
    · have early : sub <+: c :: s := (keep unruled rest).begins blunt front fun _ mem => mem
      rcases absent with ⟨rule, mem, pattern⟩ | absent
      · exact unruled rule mem (pattern ▸ early)
      · exact absent early.isInfix
    · exact later inside
  | @apply rule s t mem rest ih =>
    have later := ih (absent.imp_right fun h => h.inside (List.suffix_append _ s).isInfix)
    exact (blunt rule mem).ends.append_avoids later nonempty

end Rule.Replaced

end DomTemplate
