import DomTemplate.Proofs.Blanks
import DomTemplate.Proofs.Transparent
import Mathlib.Data.List.DropRight

/-! Text runs part by part. What a part comes to depends on its neighbours only through
whether they are expressions, so a run may be cut anywhere, each side told of the part across
the cut. A comment is not an expression: it cuts a run in two, and the literals next to it are
trimmed as at the ends of a run. Taking a comment out therefore changes the text, unless the
literals on both sides had nothing to lose there. -/

namespace DomTemplate
open Ascii

namespace Bytes
variable {a b s t lead core trail : Bytes}

theorem eq_append_append : t = a ++ (b ++ t) ↔ a = [] ∧ b = [] := by
  rw [← List.append_assoc, List.self_eq_append_left, List.append_eq_nil_iff]

/-- `s` is `core`, which starts and ends with no blank, between two rows of blanks. -/
structure Framed (s lead core trail : Bytes) : Prop where
  split : s = lead ++ (core ++ trail)
  leading : ∀ c ∈ lead, Ascii.isBlank c = true
  trailing : ∀ c ∈ trail, Ascii.isBlank c = true
  starts : ∃ c rest, core = c :: rest ∧ Ascii.isBlank c = false
  ends : ∃ rest c, core = rest ++ [c] ∧ Ascii.isBlank c = false

theorem exists_framed (filled : ¬ ∀ c ∈ s, Ascii.isBlank c = true) :
    ∃ lead core trail, Framed s lead core trail := by
  obtain ⟨c, rest, found⟩ : ∃ c rest, s.dropWhile Ascii.isBlank = c :: rest :=
    List.exists_cons_of_ne_nil (mt List.dropWhile_eq_nil_iff.mp filled)
  have stop : Ascii.isBlank c = false := by
    have head := List.head?_dropWhile_not Ascii.isBlank s
    rw [found] at head
    simpa using head
  have kept : List.rdropWhile Ascii.isBlank (c :: rest) ≠ [] := by
    rw [Ne, List.rdropWhile_eq_nil_iff]
    intro all
    simp [stop] at all
  refine ⟨s.takeWhile Ascii.isBlank, List.rdropWhile Ascii.isBlank (c :: rest),
    List.rtakeWhile Ascii.isBlank (c :: rest), ?_, ?_, ?_, ?_, ?_⟩
  · rw [List.rdropWhile_append_rtakeWhile, ← found, List.takeWhile_append_dropWhile]
  · exact fun c mem => List.mem_takeWhile_imp mem
  · exact fun c mem => List.mem_rtakeWhile_imp mem
  · obtain ⟨more, whole⟩ := List.rdropWhile_prefix Ascii.isBlank (l := c :: rest)
    obtain ⟨d, core, shape⟩ := List.exists_cons_of_ne_nil kept
    rw [shape] at whole
    cases whole
    exact ⟨c, core, shape, stop⟩
  · have last := List.rdropWhile_last_not Ascii.isBlank (c :: rest) kept
    exact ⟨_, _, (List.dropLast_append_getLast kept).symm, by simpa using last⟩

namespace Framed

theorem ne_nil (h : Framed s lead core trail) : core ≠ [] := by
  obtain ⟨c, rest, rfl, -⟩ := h.starts
  simp

theorem starts_iff (h : Framed s lead core trail) :
    s.head?.any Ascii.isBlank = false ↔ lead = [] := by
  obtain ⟨c, rest, rfl, stop⟩ := h.starts
  rw [h.split]
  cases lead with
  | nil => simp [stop]
  | cons d lead => simp [h.leading d]

theorem ends_iff (h : Framed s lead core trail) :
    s.getLast?.any Ascii.isBlank = false ↔ trail = [] := by
  obtain ⟨rest, c, rfl, stop⟩ := h.ends
  rw [h.split]
  cases trail using List.reverseRecOn with
  | nil => simp [stop]
  | append_singleton trail d =>
    have whole : lead ++ (rest ++ [c] ++ (trail ++ [d])) = lead ++ (rest ++ [c] ++ trail) ++ [d] := by
      simp
    rw [whole, List.getLast?_concat]
    simp [h.trailing d]

/-- Two texts in a row have a core each and blanks between them. -/
theorem append {lead' core' trail' : Bytes} (ha : Framed a lead core trail)
    (hb : Framed b lead' core' trail') :
    Framed (a ++ b) lead (core ++ (trail ++ (lead' ++ core'))) trail' where
  split := by rw [ha.split, hb.split]; simp
  leading := ha.leading
  trailing := hb.trailing
  starts := by
    obtain ⟨c, rest, rfl, stop⟩ := ha.starts
    exact ⟨c, _, rfl, stop⟩
  ends := by
    obtain ⟨rest, c, rfl, stop⟩ := hb.ends
    exact ⟨core ++ (trail ++ (lead' ++ rest)), c, by simp, stop⟩

theorem pad_left (blank : ∀ c ∈ a, Ascii.isBlank c = true) (hb : Framed b lead core trail) :
    Framed (a ++ b) (a ++ lead) core trail where
  split := by rw [hb.split, List.append_assoc]
  leading := List.forall_mem_append.mpr ⟨blank, hb.leading⟩
  trailing := hb.trailing
  starts := hb.starts
  ends := hb.ends

theorem pad_right (ha : Framed a lead core trail) (blank : ∀ c ∈ b, Ascii.isBlank c = true) :
    Framed (a ++ b) lead core (trail ++ b) where
  split := by rw [ha.split]; simp
  leading := ha.leading
  trailing := List.forall_mem_append.mpr ⟨ha.trailing, blank⟩
  starts := ha.starts
  ends := ha.ends

end Framed

/-- `s` without the blanks at the ends that do not keep them. -/
def trimmed (keepStart keepEnd : Bool) (s : Bytes) : Bytes :=
  let s := if keepStart then s else s.dropWhile Ascii.isBlank
  if keepEnd then s else dropWhileRight Ascii.isBlank s

namespace Framed

theorem dropWhile_eq (h : Framed s lead core trail) (after : Bytes) :
    (s ++ after).dropWhile Ascii.isBlank = core ++ trail ++ after := by
  obtain ⟨c, rest, rfl, stop⟩ := h.starts
  rw [h.split, List.append_assoc, List.dropWhile_append_of_pos h.leading]
  simp [stop]

theorem dropWhileRight_eq (h : Framed s lead core trail) (before : Bytes) :
    dropWhileRight Ascii.isBlank (before ++ s) = before ++ (lead ++ core) := by
  obtain ⟨rest, c, rfl, stop⟩ := h.ends
  have reversed : (before ++ s).reverse = trail.reverse ++ c :: (before ++ (lead ++ rest)).reverse := by
    rw [h.split]
    simp
  rw [dropWhileRight, reversed, List.dropWhile_append_of_pos (by simpa using h.trailing)]
  simp [stop]

/-- The core of a text, without the blanks around it. -/
theorem bare (h : Framed s lead core trail) : Framed core [] core [] where
  split := by simp
  leading := by simp
  trailing := by simp
  starts := h.starts
  ends := h.ends

theorem trimmed_eq (h : Framed s lead core trail) (keepStart keepEnd : Bool) :
    trimmed keepStart keepEnd s =
      (if keepStart then lead else []) ++ (core ++ if keepEnd then trail else []) := by
  have start := h.dropWhile_eq []
  have finish := h.dropWhileRight_eq []
  rw [List.append_nil, List.append_nil] at start
  cases keepStart <;> cases keepEnd
  · have both : dropWhileRight Ascii.isBlank (core ++ trail) = core := by
      simpa using (h.bare.pad_right h.trailing).dropWhileRight_eq []
    simp [trimmed, start, both]
  · simp [trimmed, start]
  · simpa [trimmed] using finish
  · simp [trimmed, ← h.split]

theorem trimmed_append_start (h : Framed b lead core trail) (keepEnd : Bool) (a : Bytes) :
    trimmed true keepEnd (a ++ b) = a ++ trimmed true keepEnd b := by
  rw [h.trimmed_eq]
  cases keepEnd with
  | true => simp [trimmed, ← h.split]
  | false => simpa [trimmed] using h.dropWhileRight_eq a

theorem trimmed_append_end (h : Framed a lead core trail) (keepStart : Bool) (b : Bytes) :
    trimmed keepStart true (a ++ b) = trimmed keepStart true a ++ b := by
  rw [h.trimmed_eq]
  cases keepStart with
  | true => simp [trimmed, ← h.split]
  | false => simpa [trimmed] using h.dropWhile_eq b

/-- A text in front shows unless it is trimmed off whole, or is empty where nothing is trimmed. -/
theorem trimmed_append_left (h : Framed b lead core trail) (keepStart keepEnd : Bool) (a : Bytes) :
    trimmed false keepEnd b = trimmed keepStart keepEnd (a ++ b) ↔
      (if keepStart then a.isEmpty && !b.head?.any Ascii.isBlank else a.all Ascii.isBlank) = true := by
  cases keepStart with
  | true =>
    rw [h.trimmed_append_start, h.trimmed_eq, h.trimmed_eq]
    simp [eq_append_append, h.starts_iff]
  | false =>
    by_cases ascii : ∀ c ∈ a, Ascii.isBlank c = true
    · simp [h.trimmed_eq, (h.pad_left ascii).trimmed_eq, List.all_eq_true.mpr ascii]
    · obtain ⟨lead', core', trail', frame⟩ := exists_framed ascii
      have nonempty := List.length_pos_iff.mpr frame.ne_nil
      rw [h.trimmed_eq, (frame.append h).trimmed_eq]
      simp only [Bool.false_eq_true, if_false, List.all_eq_true, ascii, iff_false]
      intro same
      have lengths := congrArg List.length same
      simp only [List.length_append, List.length_nil] at lengths
      omega

theorem trimmed_append_right (h : Framed a lead core trail) (keepStart keepEnd : Bool) (b : Bytes) :
    trimmed keepStart false a = trimmed keepStart keepEnd (a ++ b) ↔
      (if keepEnd then b.isEmpty && !a.getLast?.any Ascii.isBlank else b.all Ascii.isBlank) = true := by
  cases keepEnd with
  | true =>
    rw [h.trimmed_append_end, h.trimmed_eq, h.trimmed_eq]
    simp [h.ends_iff, and_comm]
  | false =>
    by_cases ascii : ∀ c ∈ b, Ascii.isBlank c = true
    · simp [h.trimmed_eq, (h.pad_right ascii).trimmed_eq, List.all_eq_true.mpr ascii]
    · obtain ⟨lead', core', trail', frame⟩ := exists_framed ascii
      have nonempty := List.length_pos_iff.mpr frame.ne_nil
      rw [h.trimmed_eq, (h.append frame).trimmed_eq]
      simp only [Bool.false_eq_true, if_false, List.all_eq_true, ascii, iff_false]
      intro same
      have lengths := congrArg List.length same
      simp only [List.length_append, List.length_nil] at lengths
      omega

end Framed

/-- What two literals show if nothing but a comment stands between them is what they show as
one literal. -/
def joinsUnseen (afterExpression beforeExpression : Bool) (a b : Bytes) : Bool :=
  match a.isBlank, b.isBlank with
  | true, true => true
  | true, false =>
    if afterExpression then a.isEmpty && !b.head?.any Ascii.isBlank else a.all Ascii.isBlank
  | false, true =>
    if beforeExpression then b.isEmpty && !a.getLast?.any Ascii.isBlank else b.all Ascii.isBlank
  | false, false =>
    !(a ++ b).isBlank && !a.getLast?.any Ascii.isBlank && !b.head?.any Ascii.isBlank

end Bytes

/-- The text of a literal of a run, empty if the literal is blank. -/
def literalText (afterExpression beforeExpression : Bool) (value : Bytes) : Bytes :=
  if value.isBlank then [] else value.trimmed afterExpression beforeExpression

section
variable {after before : Bool} {a b : Bytes}
open Bytes

theorem exists_core (filled : a.isBlank = false) : ∃ lead core trail, Framed a lead core trail := by
  refine exists_framed fun ascii => ?_
  simp [isBlank_of_forall ascii] at filled

theorem literalText_eq_nil : literalText after before a = [] ↔ a.isBlank = true := by
  unfold literalText
  cases filled : a.isBlank with
  | true => simp
  | false =>
    obtain ⟨lead, core, trail, frame⟩ := exists_core filled
    simp [frame.trimmed_eq, frame.ne_nil]

/-- A literal that loses nothing more at its end. -/
theorem literalText_end :
    literalText after false a = literalText after true a ↔
      (a.isBlank || !a.getLast?.any Ascii.isBlank) = true := by
  unfold literalText
  cases filled : a.isBlank with
  | true => simp
  | false =>
    obtain ⟨lead, core, trail, frame⟩ := exists_core filled
    simp [frame.trimmed_eq, frame.ends_iff]

/-- A literal that loses nothing more at its start. -/
theorem literalText_start :
    literalText false before b = literalText true before b ↔
      (b.isBlank || !b.head?.any Ascii.isBlank) = true := by
  unfold literalText
  cases filled : b.isBlank with
  | true => simp
  | false =>
    obtain ⟨lead, core, trail, frame⟩ := exists_core filled
    simp [frame.trimmed_eq, frame.starts_iff]

/-- Whether literals lose nothing more at a cut between them. -/
theorem literalText_append :
    literalText after false a ++ literalText false before b = literalText after before (a ++ b) ↔
      joinsUnseen after before a b = true := by
  unfold literalText joinsUnseen
  cases blankA : a.isBlank with
  | true =>
    rw [isBlank_append_left blankA]
    cases blankB : b.isBlank with
    | true => simp
    | false =>
      obtain ⟨lead, core, trail, frame⟩ := exists_core blankB
      simpa using frame.trimmed_append_left after before a
  | false =>
    obtain ⟨lead, core, trail, frame⟩ := exists_core blankA
    cases blankB : b.isBlank with
    | true =>
      rw [isBlank_append_right a blankB, blankA]
      simpa using frame.trimmed_append_right after before b
    | false =>
      obtain ⟨lead', core', trail', frame'⟩ := exists_core blankB
      cases blank : (a ++ b).isBlank with
      | true => simp [frame.trimmed_eq, frame.ne_nil]
      | false =>
        simp [frame.trimmed_eq, frame'.trimmed_eq, (frame.append frame').trimmed_eq, frame.ends_iff,
          frame'.starts_iff, eq_append_append]

end

namespace Intent

/-- The literal text of intents. -/
def contents (ns : List Intent) : Bytes :=
  ns.flatMap fun
    | content text => text
    | _ => []

/-- Put literal text in front, and merge it with literal text that is already there. -/
def prependText (text : Bytes) : List Intent → List Intent
  | content more :: ns => content (text ++ more) :: ns
  | ns => content text :: ns

/-- What a run shows and runs: neighbouring literal texts are one, and what does nothing is
left out. -/
def mergeContents : List Intent → List Intent
  | [] => []
  | content text :: ns => prependText text (mergeContents ns)
  | ignore :: ns => mergeContents ns
  | n :: ns => n :: mergeContents ns

variable {ns ns' : List Intent}

theorem contents_append (ns ns' : List Intent) : contents (ns ++ ns') = contents ns ++ contents ns' :=
  List.flatMap_append

theorem contents_prependText (text : Bytes) (ns : List Intent) :
    contents (prependText text ns) = text ++ contents ns := by
  unfold prependText
  split <;> simp [contents]

theorem contents_mergeContents (ns : List Intent) : contents (mergeContents ns) = contents ns := by
  fun_induction mergeContents ns with
  | case1 => rfl
  | case2 text ns ih => rw [contents_prependText, ih]; rfl
  | case3 ns ih => rw [ih]; rfl
  | case4 n ns _ _ ih => simpa [contents] using ih

theorem mergeContents_append (before : List Intent) (same : mergeContents ns = mergeContents ns') :
    mergeContents (before ++ ns) = mergeContents (before ++ ns') := by
  induction before with
  | nil => exact same
  | cons n before ih => cases n <;> simp [mergeContents, ih]

/-- `ns` and `ns'` show and run the same, whatever follows, if `same` holds; otherwise not even
their literal texts are the same. -/
structure Compared (same : Bool) (ns ns' : List Intent) : Prop where
  text : contents ns = contents ns' → same = true
  merged : same = true → ∀ rest, mergeContents (ns ++ rest) = mergeContents (ns' ++ rest)

namespace Compared
variable {same : Bool}

theorem iff (h : Compared same ns ns') : mergeContents ns = mergeContents ns' ↔ same = true := by
  constructor
  · intro merged
    have texts := congrArg contents merged
    rw [contents_mergeContents, contents_mergeContents] at texts
    exact h.text texts
  · intro holds
    simpa using h.merged holds []

theorem within (h : Compared same ns ns') (before after : List Intent) :
    Compared same (before ++ (ns ++ after)) (before ++ (ns' ++ after)) where
  text := by
    intro texts
    simp only [contents_append, List.append_cancel_left_eq, List.append_cancel_right_eq] at texts
    exact h.text texts
  merged := by
    intro holds rest
    simp only [List.append_assoc]
    exact mergeContents_append before (h.merged holds _)

end Compared

/-- Literal text in front, if there is any. -/
def withText (text : Bytes) (ns : List Intent) : List Intent :=
  if text.isEmpty then ns else prependText text ns

theorem withText_append (s t : Bytes) (ns : List Intent) :
    withText (s ++ t) ns = withText s (withText t ns) := by
  cases s with
  | nil => rfl
  | cons b s =>
    cases t with
    | nil => simp [withText]
    | cons c t =>
      simp only [withText, prependText, List.isEmpty_cons, List.cons_append, if_false,
        Bool.false_eq_true]
      split <;> simp

end Intent

namespace Compile
open Intent

theorem literal_filled {value : Bytes} (filled : value.isBlank = false) (after before : Bool) :
    literal after before value = .content (value.trimmed after before) := by
  rw [literal, filled]
  rfl

theorem contents_literal (after before : Bool) (value : Bytes) :
    contents [literal after before value] = literalText after before value := by
  unfold literal literalText
  split <;> simp [contents, Bytes.trimmed]

theorem mergeContents_literal (after before : Bool) (value : Bytes) (ns : List Intent) :
    mergeContents (literal after before value :: ns) =
      withText (literalText after before value) (mergeContents ns) := by
  cases blank : value.isBlank with
  | true => simp [literal, literalText, blank, mergeContents, withText]
  | false =>
    have filled : literalText after before value ≠ [] :=
      fun empty => by simp [literalText_eq_nil.mp empty] at blank
    rw [withText, List.isEmpty_eq_false_iff.mpr filled]
    simp [literal, literalText, blank, mergeContents, Bytes.trimmed]

def startsWithExpression (before : Bool) (parts : List Part) : Bool :=
  (parts.head?.map Part.isExpression).getD before

def endsInExpression (after : Bool) (parts : List Part) : Bool :=
  (parts.getLast?.map Part.isExpression).getD after

theorem startsWithExpression_append (before : Bool) (ps qs : List Part) :
    startsWithExpression before (ps ++ qs) =
      startsWithExpression (startsWithExpression before qs) ps := by
  cases ps <;> rfl

theorem endsInExpression_append (after : Bool) (ps qs : List Part) :
    endsInExpression after (ps ++ qs) = endsInExpression (endsInExpression after ps) qs := by
  cases last : qs.getLast? with
  | none => simp [endsInExpression, List.getLast?_append, last]
  | some q => simp [endsInExpression, List.getLast?_append, last]

/-- What a part of a text run comes to. -/
def partIntent (after before : Bool) (p : Part) : Except TemplateError Intent :=
  alone (textPart (after, p, before)) []

/-- What the parts of a text run come to, if the run is a piece of a longer one: `after` and
`before` say whether expressions stand around it. -/
def runIntents (after before : Bool) : List Part → Except TemplateError (List Intent)
  | [] => .ok []
  | p :: ps => do
    return (← partIntent after (startsWithExpression before ps) p) ::
      (← runIntents p.isExpression before ps)

theorem runIntents_eq (after : Bool) (parts : List Part) (target : Bytes) :
    ((withNeighbours after parts).mapM fun p => alone (textPart p) target) =
      runIntents after false parts := by
  induction parts generalizing after with
  | nil => rfl
  | cons p ps ih =>
    have next : ps.head?.any Part.isExpression = startsWithExpression false ps := by
      cases ps <;> rfl
    have same : alone (textPart (after, p, ps.head?.any Part.isExpression)) target =
        partIntent after (startsWithExpression false ps) p := by
      rw [next]
      cases p <;> rfl
    rw [withNeighbours, List.mapM_cons, ih, same]
    rfl

/-- A text run comes to a container of what its parts come to. -/
theorem text_run (parts : List Part) (f : Frame) (outer : Scopes) (issued : List Bytes) :
    text parts ⟨f :: outer, issued⟩ = (runIntents false false parts).map fun nodes =>
      (.container ⟨f.target, nodes⟩, ⟨f :: outer, issued⟩) := by
  simp only [text, bind, StateT.bind, inScope_run transparent_textPart, runIntents_eq]
  cases runIntents false false parts <;> rfl

theorem runIntents_append (after before : Bool) (ps qs : List Part) :
    runIntents after before (ps ++ qs) = (do
      let nodes ← runIntents after (startsWithExpression before qs) ps
      let more ← runIntents (endsInExpression after ps) before qs
      return nodes ++ more) := by
  induction ps generalizing after with
  | nil =>
    exact (bind_pure (runIntents after before qs)).symm
  | cons p ps ih =>
    have last : endsInExpression after (p :: ps) = endsInExpression p.isExpression ps :=
      endsInExpression_append after [p] ps
    rw [List.cons_append, runIntents, runIntents, ih, startsWithExpression_append, last]
    simp only [bind_assoc, pure_bind, List.cons_append]

/-- A run without the comment between `front` and `back`: literals that met at the comment
are one. -/
def joinParts (front back : List Part) : List Part :=
  match front.getLast?, back.head? with
  | some (.raw a), some (.raw b) => front.dropLast ++ .raw (a ++ b) :: back.tail
  | _, _ => front ++ back

/-- Whether a comment between `front` and `back` leaves no trace: the literals next to it lose
nothing there that they would keep without it. -/
def seamless (front back : List Part) : Bool :=
  match front.getLast?, back.head? with
  | some (.raw a), some (.raw b) =>
    Bytes.joinsUnseen (endsInExpression false front.dropLast)
      (startsWithExpression false back.tail) a b
  | some (.raw a), some q => !q.isExpression || (a.isBlank || !a.getLast?.any Ascii.isBlank)
  | some p, some (.raw b) => !p.isExpression || (b.isBlank || !b.head?.any Ascii.isBlank)
  | _, _ => true

theorem partIntent_comment {comment : Code} (kind : comment.kind = .comment) (after before : Bool) :
    partIntent after before (.code comment) = .ok .ignore := by
  obtain ⟨_, source, pos⟩ := comment
  cases kind
  rfl

/-- A comment cuts a run in two. -/
theorem runIntents_comment {comment : Code} (kind : comment.kind = .comment) (after before : Bool)
    (front back : List Part) :
    runIntents after before (front ++ .code comment :: back) = (do
      let nodes ← runIntents after false front
      let more ← runIntents false before back
      return nodes ++ .ignore :: more) := by
  have plain : (Part.code comment).isExpression = false := by simp [Part.isExpression, kind]
  have starts : startsWithExpression before (.code comment :: back) = false := plain
  rw [runIntents_append, runIntents, starts, plain, partIntent_comment kind]
  simp only [bind_assoc, pure_bind]
  rfl

/-- Two runs that fail alike, or come to intents that compare as `same` says. -/
inductive ComparedRuns (same : Bool) :
    Except TemplateError (List Intent) → Except TemplateError (List Intent) → Prop where
  | error (e : TemplateError) : ComparedRuns same (.error e) (.error e)
  | ok {ns ns' : List Intent} (compared : Compared same ns ns') : ComparedRuns same (.ok ns) (.ok ns')

/-- Runs compare as the pieces in which they differ, if these start and end alike. -/
theorem ComparedRuns.within {same : Bool} {front piece piece' back : List Part}
    (starts : startsWithExpression (startsWithExpression false back) piece =
      startsWithExpression (startsWithExpression false back) piece')
    (ends : endsInExpression (endsInExpression false front) piece =
      endsInExpression (endsInExpression false front) piece')
    (h : ComparedRuns same
      (runIntents (endsInExpression false front) (startsWithExpression false back) piece)
      (runIntents (endsInExpression false front) (startsWithExpression false back) piece')) :
    ComparedRuns same (runIntents false false (front ++ (piece ++ back)))
      (runIntents false false (front ++ (piece' ++ back))) := by
  simp only [runIntents_append, startsWithExpression_append, starts, ends]
  generalize runIntents (endsInExpression false front) (startsWithExpression false back) piece = r,
    runIntents (endsInExpression false front) (startsWithExpression false back) piece' = r' at h ⊢
  cases runIntents false (startsWithExpression (startsWithExpression false back) piece') front with
  | error e => exact .error e
  | ok nodes =>
    cases h with
    | error e => exact .error e
    | ok compared =>
      cases runIntents (endsInExpression (endsInExpression false front) piece') false back with
      | error e => exact .error e
      | ok more => exact .ok (compared.within nodes more)

theorem compared_literals (after before : Bool) (a b : Bytes) :
    Compared (Bytes.joinsUnseen after before a b)
      [literal after false a, .ignore, literal false before b] [literal after before (a ++ b)] where
  text := by
    intro texts
    rw [← literalText_append, ← contents_literal, ← contents_literal, ← contents_literal,
      ← contents_append]
    exact texts
  merged := by
    intro holds rest
    simp only [List.cons_append, List.nil_append, mergeContents_literal, mergeContents]
    rw [← withText_append, literalText_append.mpr holds]

theorem compared_before (after expression : Bool) (a : Bytes) (n : Intent) :
    Compared (!expression || (a.isBlank || !a.getLast?.any Ascii.isBlank))
      [literal after false a, .ignore, n] [literal after expression a, n] := by
  cases expression with
  | false =>
    refine ⟨fun _ => rfl, fun _ rest => ?_⟩
    simp only [List.cons_append, List.nil_append, mergeContents_literal, mergeContents]
  | true =>
    refine ⟨fun texts => ?_, fun holds rest => ?_⟩
    · have literals : contents [literal after false a] ++ contents [n] =
          contents [literal after true a] ++ contents [n] := by
        rw [← contents_append, ← contents_append]
        exact texts
      rw [contents_literal, contents_literal] at literals
      exact literalText_end.mp (List.append_cancel_right literals)
    · simp only [List.cons_append, List.nil_append, mergeContents_literal, mergeContents]
      rw [literalText_end.mpr holds]

theorem compared_after (expression before : Bool) (b : Bytes) (n : Intent) :
    Compared (!expression || (b.isBlank || !b.head?.any Ascii.isBlank))
      [n, .ignore, literal false before b] [n, literal expression before b] := by
  cases expression with
  | false =>
    refine ⟨fun _ => rfl, fun _ rest => ?_⟩
    have behind : mergeContents (.ignore :: literal false before b :: rest) =
        mergeContents (literal false before b :: rest) := by rw [mergeContents]
    exact mergeContents_append [n] behind
  | true =>
    refine ⟨fun texts => ?_, fun holds rest => ?_⟩
    · have literals : contents [n] ++ contents [literal false before b] =
          contents [n] ++ contents [literal true before b] := by
        rw [← contents_append, ← contents_append]
        exact texts
      rw [contents_literal, contents_literal] at literals
      exact literalText_start.mp (List.append_cancel_left literals)
    · have behind : mergeContents (.ignore :: literal false before b :: rest) =
          mergeContents (literal true before b :: rest) := by
        rw [mergeContents, mergeContents_literal, mergeContents_literal, literalText_start.mpr holds]
      exact mergeContents_append [n] behind

theorem partIntent_plain {p : Part} (plain : ∀ value, p ≠ .raw value) (after before : Bool) :
    partIntent after before p = partIntent false false p := by
  cases p with
  | raw value => exact absurd rfl (plain value)
  | _ => rfl

theorem compared_ignore (n m : Intent) : Compared true [n, .ignore, m] [n, m] := by
  refine ⟨fun _ => rfl, fun _ rest => ?_⟩
  have behind : mergeContents (.ignore :: m :: rest) = mergeContents (m :: rest) := by
    rw [mergeContents]
  exact mergeContents_append [n] behind

/-- A comment between two parts that are not both literals, and the two parts without it. -/
theorem comparedRuns_parts {comment : Code} (kind : comment.kind = .comment) {p q : Part}
    (after before : Bool) (literals : ∀ a b, p = .raw a → q ≠ .raw b) :
    ComparedRuns (seamless [p] [q]) (runIntents after before [p, .code comment, q])
      (runIntents after before [p, q]) := by
  have cut : runIntents after before [p, .code comment, q] = (do
      let n ← partIntent after false p
      let m ← partIntent false before q
      return [n, .ignore, m]) := by
    have split := runIntents_comment kind after before [p] [q]
    simp only [runIntents, bind_assoc, pure_bind] at split
    exact split
  have whole : runIntents after before [p, q] = (do
      let n ← partIntent after q.isExpression p
      let m ← partIntent p.isExpression before q
      return [n, m]) := by
    simp only [runIntents, bind_assoc, pure_bind]
    rfl
  rw [cut, whole]
  -- only literals are trimmed: any other part comes to the same next to a comment
  by_cases plain : ∀ a, p ≠ .raw a
  · rw [partIntent_plain plain after false, partIntent_plain plain after q.isExpression]
    cases partIntent false false p with
    | error e => exact .error e
    | ok n =>
      by_cases other : ∀ b, q ≠ .raw b
      · have condition : seamless [p] [q] = true := by
          cases p with
          | raw a => exact absurd rfl (plain a)
          | _ =>
            cases q with
            | raw b => exact absurd rfl (other b)
            | _ => rfl
        rw [condition, partIntent_plain other false before, partIntent_plain other p.isExpression]
        cases partIntent false false q with
        | error e => exact .error e
        | ok m => exact .ok (compared_ignore n m)
      · obtain ⟨b, rfl⟩ : ∃ b, q = .raw b := by simpa using other
        have condition : seamless [p] [.raw b] =
            (!p.isExpression || (b.isBlank || !b.head?.any Ascii.isBlank)) := by
          cases p with
          | raw a => exact absurd rfl (plain a)
          | _ => rfl
        rw [condition]
        exact .ok (compared_after p.isExpression before b n)
  · obtain ⟨a, rfl⟩ : ∃ a, p = .raw a := by simpa using plain
    have other : ∀ b, q ≠ .raw b := fun b => literals a b rfl
    have condition : seamless [.raw a] [q] =
        (!q.isExpression || (a.isBlank || !a.getLast?.any Ascii.isBlank)) := by
      cases q with
      | raw b => exact absurd rfl (other b)
      | _ => rfl
    rw [condition, partIntent_plain other false before,
      partIntent_plain other (Part.raw a).isExpression]
    cases partIntent false false q with
    | error e => exact .error e
    | ok m => exact .ok (compared_before after q.isExpression a m)

/-- A run with a comment in it, and the run without the comment. -/
theorem comparedRuns_comment {comment : Code} (kind : comment.kind = .comment)
    (front back : List Part) :
    ComparedRuns (seamless front back) (runIntents false false (front ++ .code comment :: back))
      (runIntents false false (joinParts front back)) := by
  cases front using List.reverseRecOn with
  | nil =>
    rw [runIntents_comment kind]
    change ComparedRuns true _ (runIntents false false back)
    cases runIntents false false back with
    | error e => exact .error e
    | ok more => exact .ok ⟨fun _ => rfl, fun _ rest => rfl⟩
  | append_singleton front p =>
    cases back with
    | nil =>
      have joined : joinParts (front ++ [p]) [] = front ++ [p] := by simp [joinParts]
      have condition : seamless (front ++ [p]) [] = true := by simp [seamless]
      rw [joined, condition, runIntents_comment kind]
      cases runIntents false false (front ++ [p]) with
      | error e => exact .error e
      | ok nodes =>
        refine .ok ⟨fun _ => rfl, fun _ rest => ?_⟩
        rw [List.append_assoc]
        exact mergeContents_append nodes rfl
    | cons q back =>
      have whole : front ++ [p] ++ .code comment :: q :: back =
          front ++ ([p, .code comment, q] ++ back) := by simp
      rw [whole]
      -- two literals become one when the comment between them goes, other neighbours do not
      by_cases literals : ∀ a b, p = .raw a → q ≠ .raw b
      · have joined : joinParts (front ++ [p]) (q :: back) = front ++ ([p, q] ++ back) := by
          cases p <;> cases q <;> simp [joinParts] at literals ⊢
        have condition : seamless (front ++ [p]) (q :: back) = seamless [p] [q] := by
          cases p <;> cases q <;> simp [seamless] at literals ⊢
        rw [joined, condition]
        exact .within rfl rfl (comparedRuns_parts kind _ _ literals)
      · obtain ⟨a, b, rfl, rfl⟩ : ∃ a b, p = .raw a ∧ q = .raw b := by simpa using literals
        have joined : joinParts (front ++ [.raw a]) (.raw b :: back) =
            front ++ ([.raw (a ++ b)] ++ back) := by simp [joinParts]
        have condition : seamless (front ++ [.raw a]) (.raw b :: back) =
            Bytes.joinsUnseen (endsInExpression false front) (startsWithExpression false back) a b := by
          simp [seamless]
        have cut (after before : Bool) : runIntents after before [.raw a, .code comment, .raw b] =
            .ok [literal after false a, .ignore, literal false before b] :=
          runIntents_comment kind after before [.raw a] [.raw b]
        rw [joined, condition]
        refine .within rfl rfl ?_
        rw [cut]
        exact .ok (compared_literals _ _ a b)

/-- What a comment does to a text run. The run comes to what the parts before and the parts
after the comment come to as runs of their own, both trimmed at the comment. Without the
comment it fails alike, or shows and runs the same exactly if the literals that stood at the
comment have nothing to lose there. -/
theorem text_around_comment {comment : Code} (kind : comment.kind = .comment)
    (front back : List Part) (f : Frame) (outer : Scopes) (issued : List Bytes) :
    (∃ e, text (front ++ .code comment :: back) ⟨f :: outer, issued⟩ = .error e ∧
      text (joinParts front back) ⟨f :: outer, issued⟩ = .error e) ∨
    ∃ nodes more joined,
      text front ⟨f :: outer, issued⟩ =
        .ok (.container ⟨f.target, nodes⟩, ⟨f :: outer, issued⟩) ∧
      text back ⟨f :: outer, issued⟩ =
        .ok (.container ⟨f.target, more⟩, ⟨f :: outer, issued⟩) ∧
      text (front ++ .code comment :: back) ⟨f :: outer, issued⟩ =
        .ok (.container ⟨f.target, nodes ++ .ignore :: more⟩, ⟨f :: outer, issued⟩) ∧
      text (joinParts front back) ⟨f :: outer, issued⟩ =
        .ok (.container ⟨f.target, joined⟩, ⟨f :: outer, issued⟩) ∧
      (mergeContents (nodes ++ .ignore :: more) = mergeContents joined ↔
        seamless front back = true) := by
  simp only [text_run]
  have cut := runIntents_comment kind false false front back
  have compared := comparedRuns_comment kind front back
  generalize runIntents false false (front ++ .code comment :: back) = whole,
    runIntents false false (joinParts front back) = joined at cut compared ⊢
  cases compared with
  | error e => exact .inl ⟨e, rfl, rfl⟩
  | @ok ns ns' compared =>
    right
    cases before : runIntents false false front with
    | error e => rw [before] at cut; cases cut
    | ok nodes =>
      cases after : runIntents false false back with
      | error e => rw [before, after] at cut; cases cut
      | ok more =>
        rw [before, after] at cut
        cases cut
        exact ⟨nodes, more, ns', rfl, rfl, rfl, rfl, compared.iff⟩

/-- The space between a number and its unit is lost to a comment that follows it. -/
theorem text_around_comment_unit :
    (⟨.comment, utf8 " metres ", {}⟩ : Code).kind = .comment ∧
    ∃ nodes more joined,
      text [.code ⟨.expression, utf8 "n", {}⟩, .raw (utf8 " "), .code ⟨.comment, utf8 " metres ", {}⟩,
          .raw (utf8 "m")] ⟨[{ target := utf8 "p" }], []⟩ =
        .ok (.container ⟨utf8 "p", nodes ++ .ignore :: more⟩, ⟨[{ target := utf8 "p" }], []⟩) ∧
      text [.code ⟨.expression, utf8 "n", {}⟩, .raw (utf8 " m")] ⟨[{ target := utf8 "p" }], []⟩ =
        .ok (.container ⟨utf8 "p", joined⟩, ⟨[{ target := utf8 "p" }], []⟩) ∧
      mergeContents (nodes ++ .ignore :: more) ≠ mergeContents joined := by
  refine ⟨rfl, ?_⟩
  rcases text_around_comment (show (⟨.comment, utf8 " metres ", {}⟩ : Code).kind = .comment from rfl)
      [.code ⟨.expression, utf8 "n", {}⟩, .raw (utf8 " ")] [.raw (utf8 "m")] { target := utf8 "p" } [] []
    with ⟨e, failed, -⟩ | ⟨nodes, more, joined, -, -, whole, without, same⟩
  · cases failed
  · refine ⟨nodes, more, joined, whole, without, fun merged => ?_⟩
    have seam : seamless [.code ⟨.expression, utf8 "n", {}⟩, .raw (utf8 " ")] [.raw (utf8 "m")] = false := by
      decide +kernel
    rw [same, seam] at merged
    cases merged

/-- The literals next to a comment are trimmed, although they touch neither an end of the run
nor a statement. -/
theorem comment_trims_neighbours :
    text [.raw (utf8 "a "), .code ⟨.comment, utf8 " c ", {}⟩, .raw (utf8 " b")]
        ⟨[{ target := utf8 "root" }], []⟩ =
      .ok (.container ⟨utf8 "root", [.content (utf8 "a"), .ignore, .content (utf8 "b")]⟩,
        ⟨[{ target := utf8 "root" }], []⟩) ∧
    text [.raw (utf8 "a  b")] ⟨[{ target := utf8 "root" }], []⟩ =
      .ok (.container ⟨utf8 "root", [.content (utf8 "a  b")]⟩, ⟨[{ target := utf8 "root" }], []⟩) ∧
    mergeContents [.content (utf8 "a"), .ignore, .content (utf8 "b")] ≠
      mergeContents [.content (utf8 "a  b")] := by
  have shown {value text : Bytes} (filled : value.isBlank = false)
      (trimmed : value.trimmed false false = text) : literal false false value = .content text := by
    rw [literal_filled filled, trimmed]
  have left : literal false false (utf8 "a ") = .content (utf8 "a") :=
    shown (by decide +kernel) (by decide +kernel)
  have right : literal false false (utf8 " b") = .content (utf8 "b") :=
    shown (by decide +kernel) (by decide +kernel)
  have joined : literal false false (utf8 "a  b") = .content (utf8 "a  b") :=
    shown (by decide +kernel) (by decide +kernel)
  rw [text_run, text_run, ← left, ← right, ← joined]
  refine ⟨rfl, rfl, ?_⟩
  rw [left, right, joined]
  intro merged
  have texts := congrArg contents merged
  rw [contents_mergeContents, contents_mergeContents] at texts
  exact absurd texts (by decide +kernel)

end Compile
end DomTemplate
