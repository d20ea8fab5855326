import DomTemplate.DomOp
import DomTemplate.Proofs.Step
import DomTemplate.Proofs.TextRuns
import Mathlib.Data.List.Forall2
import Mathlib.Logic.Relation

/-! White space between tags. A blank text run comes to intents that do nothing, and blanks
at an end of a run are trimmed off again. So two documents that differ in such white space are
compiled through scopes that ask for the same operations: placing a child keeps scopes alike,
a blank run changes none of them, and at the end both documents fail with the same error or
render the same code. -/

namespace DomTemplate
open Ascii Compile

/-- White space is added at an end of a text run. -/
inductive Padded : List Part → List Part → Prop where
  | before {w value : Bytes} {rest : List Part} (blank : ∀ b ∈ w, isBlank b = true) :
      Padded (.raw value :: rest) (.raw (w ++ value) :: rest)
  | behind {w value : Bytes} {rest : List Part} (blank : ∀ b ∈ w, isBlank b = true) :
      Padded (rest ++ [.raw value]) (rest ++ [.raw (value ++ w)])
  | first {w : Bytes} {parts : List Part} (blank : ∀ b ∈ w, isBlank b = true) :
      Padded parts (.raw w :: parts)
  | last {w : Bytes} {parts : List Part} (blank : ∀ b ∈ w, isBlank b = true) :
      Padded parts (parts ++ [.raw w])

/-- White space is added somewhere among the children of a document. -/
inductive Spaced : List Node → List Node → Prop where
  | insert {parts : List Part} (before after : List Node)
      (blank : ∀ p ∈ parts, isBlankRaw p = true) :
      Spaced (before ++ after) (before ++ .text parts :: after)
  | text {parts parts' : List Part} (before after : List Node) (padded : Padded parts parts') :
      Spaced (before ++ .text parts :: after) (before ++ .text parts' :: after)
  | raw {value value' : Bytes} (before after : List Node)
      (padded : Padded [.raw value] [.raw value']) :
      Spaced (before ++ .raw value :: after) (before ++ .raw value' :: after)

/-- Two results that are the same error, or values that are related. -/
inductive SameOutcome {ε α : Type} (related : α → α → Prop) : Except ε α → Except ε α → Prop where
  | error (e : ε) : SameOutcome related (.error e) (.error e)
  | ok {a b : α} (h : related a b) : SameOutcome related (.ok a) (.ok b)

namespace SameOutcome
variable {ε α β : Type} {related : α → α → Prop} {x y : Except ε α}

theorem refl (h : ∀ a, related a a) (x : Except ε α) : SameOutcome related x x := by
  cases x with
  | error e => exact .error e
  | ok a => exact .ok (h a)

theorem bind {later : β → β → Prop} {f g : α → Except ε β} (h : SameOutcome related x y)
    (next : ∀ a b, related a b → SameOutcome later (f a) (g b)) :
    SameOutcome later (x.bind f) (y.bind g) := by
  cases h with
  | error e => exact .error e
  | ok h => exact next _ _ h

theorem map_eq {f : α → β} (h : SameOutcome related x y) (same : ∀ a b, related a b → f a = f b) :
    x.map f = y.map f := by
  cases h with
  | error e => rfl
  | ok h => exact congrArg Except.ok (same _ _ h)

end SameOutcome

namespace Intent

theorem opsOf_append_eq (current parent : Bytes) (ms ns : List Intent) :
    opsOf current parent (ms ++ ns) =
      (do return (← opsOf current parent ms) ++ (← opsOf current parent ns)) := by
  induction ms with
  | nil => exact (bind_pure (opsOf current parent ns)).symm
  | cons m ms ih =>
    simp only [List.cons_append, opsOf, ih, bind_assoc, pure_bind, List.append_assoc]

/-- Intents that ask for the same operations, wherever their content goes. -/
def Alike (ms ns : List Intent) : Prop :=
  ∀ current parent, opsOf current parent ms = opsOf current parent ns

theorem Alike.append {ms ns ms' ns' : List Intent} (h : Alike ms ns) (h' : Alike ms' ns') :
    Alike (ms ++ ms') (ns ++ ns') := by
  intro current parent
  rw [opsOf_append_eq, opsOf_append_eq, h, h']

theorem alike_ignored {ns : List Intent} (ignored : ∀ n ∈ ns, n = .ignore) : Alike ns [] := by
  intro current parent
  induction ns with
  | nil => rfl
  | cons n ns ih =>
    rw [List.forall_mem_cons] at ignored
    have rest := ih ignored.2
    rw [ignored.1]
    simp only [opsOf, ops] at rest ⊢
    rw [rest]
    rfl

theorem alike_container (target : Bytes) {ms ns : List Intent} (h : Alike ms ns) :
    Alike [.container ⟨target, ms⟩] [.container ⟨target, ns⟩] := by
  intro current parent
  simp only [opsOf, ops, opsIn, h target current]

end Intent

/-- Frames of the same node and tag whose intents ask for the same operations. -/
structure Frame.Alike (f g : Frame) : Prop where
  element : f.element = g.element
  nodes : Intent.Alike f.nodes g.nodes

namespace Frame.Alike
variable {f g : Frame}

theorem refl (f : Frame) : f.Alike f := ⟨rfl, fun _ _ => rfl⟩

theorem target (h : f.Alike g) : f.target = g.target := congrArg OpenElement.ref h.element

theorem tag (h : f.Alike g) : f.tag = g.tag := congrArg OpenElement.tag h.element

theorem isElement (h : f.Alike g) : f.isElement = g.isElement := by
  rw [Frame.isElement, Frame.isElement, h.tag]

theorem append (h : f.Alike g) {m n : Intent} (same : Intent.Alike [m] [n]) :
    (f.append m).Alike (g.append n) :=
  ⟨h.element, h.nodes.append same⟩

theorem container (h : f.Alike g) :
    Intent.Alike [.container f.container] [.container g.container] := by
  rw [Frame.container, Frame.container, h.target]
  exact Intent.alike_container g.target h.nodes

end Frame.Alike

namespace Scopes
variable {scopes scopes' : Scopes}

theorem elements_eq (h : List.Forall₂ Frame.Alike scopes scopes') :
    scopes.map Frame.element = scopes'.map Frame.element := by
  induction h with
  | nil => rfl
  | cons head _ ih => rw [List.map_cons, List.map_cons, head.element, ih]

theorem openElement?_element (scopes : Scopes) :
    scopes.openElement?.map Frame.element =
      (scopes.map Frame.element).find? fun e => !e.tag.isEmpty := by
  rw [List.find?_map]
  rfl

theorem lookup?_element (scopes : Scopes) (tag : Bytes) :
    (scopes.lookup? tag).map Frame.element =
      (scopes.map Frame.element).find? fun e => !e.tag.isEmpty && e.tag == tag := by
  rw [List.find?_map]
  rfl

theorem openElement?_alike (h : List.Forall₂ Frame.Alike scopes scopes') :
    scopes.openElement?.map Frame.element = scopes'.openElement?.map Frame.element := by
  rw [openElement?_element, openElement?_element, elements_eq h]

theorem closingFault_alike (h : List.Forall₂ Frame.Alike scopes scopes') (tag : Bytes) :
    closingFault scopes tag = closingFault scopes' tag := by
  have found : (scopes.lookup? tag).isSome = (scopes'.lookup? tag).isSome := by
    rw [← Option.isSome_map (f := Frame.element), ← Option.isSome_map (f := Frame.element),
      lookup?_element, lookup?_element, elements_eq h]
  rw [closingFault, closingFault, found]

end Scopes

namespace Compile

/-- States with the same names issued and the same elements open, whose scopes ask for the
same operations. -/
structure StateAlike (s t : CompileState) : Prop where
  scopes : List.Forall₂ Frame.Alike s.scopes t.scopes
  issued : s.issued = t.issued
  standing : s.scopes ≠ []

theorem StateAlike.exists_frames {s t : CompileState} (h : StateAlike s t) :
    ∃ f g outer outer' issued, s = ⟨f :: outer, issued⟩ ∧ t = ⟨g :: outer', issued⟩ ∧
      f.Alike g ∧ List.Forall₂ Frame.Alike outer outer' := by
  obtain ⟨scopes, issued⟩ := s
  obtain ⟨scopes', issued'⟩ := t
  obtain ⟨pairs, rfl, standing⟩ := h
  simp only at pairs
  cases pairs with
  | nil => exact absurd rfl standing
  | cons head pairs => exact ⟨_, _, _, _, issued, rfl, rfl, head, pairs⟩

theorem StateAlike.of_frames {f g : Frame} {outer outer' : Scopes} (head : f.Alike g)
    (pairs : List.Forall₂ Frame.Alike outer outer') (issued : List Bytes) :
    StateAlike ⟨f :: outer, issued⟩ ⟨g :: outer', issued⟩ :=
  ⟨.cons head pairs, rfl, List.cons_ne_nil _ _⟩

variable {options : CompileOptions}

theorem place_unmatched {t : Tag} {f : Frame} {issued : List Bytes} (closing : t.closing = true)
    (element : f.isElement = true) (same : f.tag = t.source) :
    place options (.tag t) ⟨[f], issued⟩ = .error (.emptyScope .current) := by
  simp [place, node, tag, closing, closeTag, bind, StateT.bind, current, Scopes.current,
    Except.map, Except.bind, element, same, pop, Scopes.pop, pure_apply, append, Scopes.append]

theorem place_unnamed {t : Tag} (opening : t.closing = false) (unnamed : t.name.getD [] = [])
    (s : CompileState) :
    place options (.tag t) s = .error (.unrecognizedNode t.pos .tagWithoutName) := by
  cases name : t.name with
  | none => simp [place, node, tag, opening, name, fail, bind, StateT.bind, Except.bind]
  | some parts =>
    rw [name] at unnamed
    cases unnamed
    simp [place, node, tag, opening, name, fail, bind, StateT.bind, Except.bind]

section
variable {t : Tag} {f g : Frame} {outer outer' : Scopes}

theorem place_closing_alike (issued : List Bytes) (closing : t.closing = true) (head : f.Alike g)
    (pairs : List.Forall₂ Frame.Alike outer outer') :
    SameOutcome (fun r r' => StateAlike r.2 r'.2) (place options (.tag t) ⟨f :: outer, issued⟩)
      (place options (.tag t) ⟨g :: outer', issued⟩) := by
  by_cases same : f.isElement = true ∧ f.tag = t.source
  · have same' : g.isElement = true ∧ g.tag = t.source := by
      rwa [← head.isElement, ← head.tag]
    cases pairs with
    | nil =>
      rw [place_unmatched closing same.1 same.2, place_unmatched closing same'.1 same'.2]
      exact .error _
    | cons second pairs =>
      rw [place_matching closing same.1 same.2, place_matching closing same'.1 same'.2]
      exact .ok (.of_frames (second.append head.container) pairs issued)
  · have same' : ¬(g.isElement = true ∧ g.tag = t.source) := by
      rwa [← head.isElement, ← head.tag]
    have whole := List.Forall₂.cons head pairs
    have opened : (Scopes.openElement? (f :: outer)).map Frame.tag =
        (Scopes.openElement? (g :: outer')).map Frame.tag := by
      have elements := congrArg (Option.map OpenElement.tag) (Scopes.openElement?_alike whole)
      rw [Option.map_map, Option.map_map] at elements
      exact elements
    rw [place_mismatched closing same, place_mismatched closing same', opened,
      Scopes.closingFault_alike whole]
    exact .error _

theorem place_opening_alike (issued : List Bytes) (opening : t.closing = false) (head : f.Alike g)
    (pairs : List.Forall₂ Frame.Alike outer outer') :
    SameOutcome (fun r r' => StateAlike r.2 r'.2) (place options (.tag t) ⟨f :: outer, issued⟩)
      (place options (.tag t) ⟨g :: outer', issued⟩) := by
  by_cases unnamed : t.name.getD [] = []
  · rw [place_unnamed opening unnamed, place_unnamed opening unnamed]
    exact .error _
  · obtain ⟨name, named⟩ : ∃ name, t.name = some name := by
      cases name : t.name with
      | none => simp [name] at unnamed
      | some parts => exact ⟨parts, rfl⟩
    have nonempty : name ≠ [] := by simpa [named] using unnamed
    rw [place_opening f outer opening named nonempty, place_opening g outer' opening named nonempty]
    cases alone (tagHead t name (nextRef options issued name)) (nextRef options issued name) with
    | error e => exact .error e
    | ok parts =>
      refine .ok ?_
      cases isVoidName name with
      | true => exact .of_frames (head.append fun _ _ => rfl) pairs _
      | false => exact .of_frames (.refl _) (.cons head pairs) _

end

/-- Placing a child keeps states alike. -/
theorem place_alike (n : Node) {s t : CompileState} (h : StateAlike s t) :
    SameOutcome (fun r r' => StateAlike r.2 r'.2) (place options n s) (place options n t) := by
  obtain ⟨f, g, outer, outer', issued, rfl, rfl, head, pairs⟩ := h.exists_frames
  by_cases plain : ∀ t, n ≠ .tag t
  · rw [place_leaf plain, place_leaf plain, head.target]
    cases alone (node options n) g.target with
    | error e => exact .error e
    | ok i => exact .ok (.of_frames (head.append fun _ _ => rfl) pairs issued)
  · obtain ⟨t, rfl⟩ : ∃ t, n = .tag t := by simpa using plain
    cases closing : t.closing with
    | true => exact place_closing_alike issued closing head pairs
    | false => exact place_opening_alike issued closing head pairs

theorem each_alike (ns : List Node) {s t : CompileState} (h : StateAlike s t) :
    SameOutcome (fun r r' => StateAlike r.2 r'.2) (each (node options) ns s)
      (each (node options) ns t) := by
  induction ns generalizing s t with
  | nil => exact .ok h
  | cons n ns ih =>
    rw [each_cons]
    exact (place_alike n h).bind fun _ _ later => ih later

/-! ### White space in a text run -/

theorem literal_padded {value longer : Bytes} {after before : Bool}
    (whole : longer.isBlank = value.isBlank)
    (same : ∀ lead core trail, Bytes.Framed value lead core trail →
      longer.trimmed after before = value.trimmed after before) :
    literal after before longer = literal after before value := by
  cases filled : value.isBlank with
  | true => rw [literal, literal, whole, filled]; rfl
  | false =>
    obtain ⟨lead, core, trail, frame⟩ := exists_core filled
    rw [literal_filled (whole.trans filled), literal_filled filled, same lead core trail frame]

theorem literal_pad_left {w : Bytes} (blank : ∀ b ∈ w, isBlank b = true) (before : Bool)
    (value : Bytes) : literal false before (w ++ value) = literal false before value :=
  literal_padded (Bytes.isBlank_append_left (Bytes.isBlank_of_forall blank) value)
    fun lead core trail frame => by
      rw [(frame.pad_left blank).trimmed_eq, frame.trimmed_eq]
      rfl

theorem literal_pad_right {w : Bytes} (blank : ∀ b ∈ w, isBlank b = true) (after : Bool)
    (value : Bytes) : literal after false (value ++ w) = literal after false value :=
  literal_padded (Bytes.isBlank_append_right value (Bytes.isBlank_of_forall blank))
    fun lead core trail frame => by
      rw [(frame.pad_right blank).trimmed_eq, frame.trimmed_eq]
      rfl

theorem literal_blank {w : Bytes} (blank : w.isBlank = true) (after before : Bool) :
    literal after before w = .ignore := by
  rw [literal, blank]
  rfl

/-- A blank run comes to intents that do nothing. -/
theorem runIntents_blank {parts : List Part} (blank : ∀ p ∈ parts, isBlankRaw p = true)
    (after before : Bool) :
    ∃ ns, runIntents after before parts = .ok ns ∧ ∀ n ∈ ns, n = .ignore := by
  induction parts generalizing after with
  | nil => exact ⟨[], rfl, by simp⟩
  | cons p ps ih =>
    rw [List.forall_mem_cons] at blank
    obtain ⟨ns, run, ignored⟩ := ih blank.2 p.isExpression
    cases p with
    | raw w =>
      refine ⟨.ignore :: ns, ?_, List.forall_mem_cons.mpr ⟨rfl, ignored⟩⟩
      rw [runIntents, run, partIntent, textPart, alone_pure, literal_blank blank.1]
      rfl
    | absent | code | misplaced => cases blank.1

/-- A padded run comes to intents that ask for the same. -/
theorem runIntents_padded {parts parts' : List Part} (h : Padded parts parts') :
    SameOutcome Intent.Alike (runIntents false false parts) (runIntents false false parts') := by
  have same (x : Except TemplateError (List Intent)) : SameOutcome Intent.Alike x x :=
    .refl (fun _ _ _ => rfl) x
  have alone {w : Bytes} (blank : ∀ b ∈ w, isBlank b = true) : ∀ p ∈ [Part.raw w], isBlankRaw p = true := by
    simpa [isBlankRaw] using Bytes.isBlank_of_forall blank
  -- blanks at a literal are trimmed with it, and a literal of its own comes to nothing
  cases h with
  | @before w value rest blank =>
    have equal : runIntents false false (.raw (w ++ value) :: rest) =
        runIntents false false (.raw value :: rest) := by
      simp only [runIntents, partIntent, textPart, alone_pure, literal_pad_left blank,
        Part.isExpression]
    rw [equal]
    exact same _
  | @behind w value rest blank =>
    have equal (after : Bool) : runIntents after false [.raw (value ++ w)] =
        runIntents after false [.raw value] := by
      have last := literal_pad_right blank after value
      exact congrArg (fun n => Except.ok [n]) last
    rw [runIntents_append, runIntents_append, equal]
    exact same _
  | @first w parts blank =>
    obtain ⟨ns, run, ignored⟩ :=
      runIntents_blank (alone blank) false (startsWithExpression false parts)
    rw [← List.singleton_append, runIntents_append, run]
    change SameOutcome _ (runIntents false false parts)
      ((runIntents false false parts).bind fun more => .ok (ns ++ more))
    cases runIntents false false parts with
    | error e => exact .error e
    | ok more =>
      have alike := (Intent.alike_ignored ignored).append fun _ _ => (rfl : _ = Intent.opsOf _ _ more)
      exact .ok fun current parent => (alike current parent).symm
  | @last w parts blank =>
    obtain ⟨ns, run, ignored⟩ := runIntents_blank (alone blank) (endsInExpression false parts) false
    rw [runIntents_append, run]
    change SameOutcome _ (runIntents false false parts)
      ((runIntents false false parts).bind fun nodes => .ok (nodes ++ ns))
    cases runIntents false false parts with
    | error e => exact .error e
    | ok nodes =>
      refine .ok fun current parent => ?_
      rw [Intent.opsOf_append_eq, Intent.alike_ignored ignored current parent, ← Intent.opsOf_append_eq,
        List.append_nil]

/-! ### White space among the children -/

theorem place_text (parts : List Part) (f : Frame) (outer : Scopes) (issued : List Bytes) :
    place options (.text parts) ⟨f :: outer, issued⟩ =
      (runIntents false false parts).map fun ns =>
        ((), ⟨f.append (.container ⟨f.target, ns⟩) :: outer, issued⟩) := by
  simp only [place, node, bind, StateT.bind, text_run]
  cases runIntents false false parts <;> rfl

theorem place_padded {parts parts' : List Part} (padded : Padded parts parts') {s t : CompileState}
    (h : StateAlike s t) :
    SameOutcome (fun r r' => StateAlike r.2 r'.2) (place options (.text parts) s)
      (place options (.text parts') t) := by
  obtain ⟨f, g, outer, outer', issued, rfl, rfl, head, pairs⟩ := h.exists_frames
  rw [place_text, place_text, head.target]
  have runs := runIntents_padded padded
  generalize runIntents false false parts = r, runIntents false false parts' = r' at runs ⊢
  cases runs with
  | error e => exact .error e
  | ok alike =>
    exact .ok (.of_frames (head.append (Intent.alike_container g.target alike)) pairs issued)

/-- Placing a blank run changes no operation. -/
theorem place_blank {parts : List Part} (blank : ∀ p ∈ parts, isBlankRaw p = true)
    {s t : CompileState} (h : StateAlike s t) :
    ∃ t', place options (.text parts) t = .ok ((), t') ∧ StateAlike s t' := by
  obtain ⟨f, g, outer, outer', issued, rfl, rfl, head, pairs⟩ := h.exists_frames
  obtain ⟨ns, run, ignored⟩ := runIntents_blank blank false false
  have nothing : Intent.Alike [] [.container ⟨g.target, ns⟩] := by
    intro current parent
    simp only [Intent.opsOf, Intent.ops, Intent.opsIn, Intent.alike_ignored ignored g.target current]
    rfl
  have nodes := head.nodes.append nothing
  rw [List.append_nil] at nodes
  have added : f.Alike (g.append (.container ⟨g.target, ns⟩)) := ⟨head.element, nodes⟩
  rw [place_text, run]
  exact ⟨_, rfl, .of_frames added pairs issued⟩

theorem each_append {α : Type} (compile : α → Compile Intent) (ps qs : List α) (s : CompileState) :
    each compile (ps ++ qs) s = (each compile ps s).bind fun r => each compile qs r.2 := by
  induction ps generalizing s with
  | nil => rfl
  | cons p ps ih =>
    simp only [List.cons_append, each, bind, StateT.bind]
    cases compile p s with
    | error e => rfl
    | ok r =>
      simp only [Except.bind]
      cases append r.1 r.2 with
      | error e => rfl
      | ok r => exact ih r.2

/-- Children that differ in white space take a state to alike states. -/
theorem each_spaced {ns ns' : List Node} (spaced : Spaced ns ns') {s : CompileState}
    (standing : s.scopes ≠ []) :
    SameOutcome (fun r r' => StateAlike r.2 r'.2) (each (node options) ns s)
      (each (node options) ns' s) := by
  have start : StateAlike s s := ⟨List.forall₂_same.mpr fun f _ => .refl f, rfl, standing⟩
  cases spaced with
  | insert before after blank =>
    rw [each_append, each_append, each_cons]
    refine (each_alike before start).bind fun r r' alike => ?_
    obtain ⟨t, placed, later⟩ : ∃ t, place options _ r'.2 = .ok ((), t) ∧ StateAlike r.2 t :=
      place_blank blank alike
    simp only [bind, StateT.bind, placed]
    exact each_alike after later
  | text before after padded =>
    rw [each_append, each_append, each_cons, each_cons]
    refine (each_alike before start).bind fun r r' alike => ?_
    exact (place_padded padded alike).bind fun _ _ later => each_alike after later
  | raw before after padded =>
    rw [each_append, each_append, each_cons, each_cons]
    refine (each_alike before start).bind fun r r' alike => ?_
    have placed : SameOutcome _ (place options (.text [.raw _]) r.2)
        (place options (.text [.raw _]) r'.2) := place_padded padded alike
    exact placed.bind fun _ _ later => each_alike after later

/-- Alike states end a document alike. -/
theorem finish_alike {s t : CompileState} (h : StateAlike s t) :
    SameOutcome (fun c c' => Intent.Alike [.container c] [.container c']) (finish s) (finish t) := by
  have opened := Scopes.openElement?_alike h.scopes
  have depth := h.scopes.length_eq
  obtain ⟨f, g, outer, outer', issued, rfl, rfl, head, pairs⟩ := h.exists_frames
  unfold finish
  rw [depth]
  split
  · generalize Scopes.openElement? (f :: outer) = o, Scopes.openElement? (g :: outer') = o' at opened ⊢
    cases o with
    | none =>
      rw [Option.map_none, eq_comm, Option.map_eq_none_iff] at opened
      rw [opened]
      exact .error _
    | some a =>
      obtain ⟨b, rfl, same⟩ := Option.map_eq_some_iff.mp opened.symm
      have tag : b.tag = a.tag := congrArg OpenElement.tag same
      have pos : b.pos = a.pos := congrArg OpenElement.pos same
      simp only [tag, pos]
      exact .error _
  · exact .ok head.container

theorem compile_spaced {doc doc' : Document} (spaced : Spaced doc.children doc'.children) :
    SameOutcome (fun c c' => Intent.Alike [.container c] [.container c']) (doc.compile options)
      (doc'.compile options) := by
  rw [compile_eq, compile_eq]
  exact (each_spaced spaced (List.cons_ne_nil _ _)).bind fun _ _ alike => finish_alike alike

end Compile

theorem Exporter.render_alike (e : Exporter) {m n : Intent} (h : Intent.Alike [m] [n]) :
    e.render m = e.render n := by
  have single (k : Intent) : Intent.opsOf e.root e.root [k] = k.ops e.root e.root := by
    rw [Intent.opsOf]
    cases k.ops e.root e.root with
    | error crash => rfl
    | ok ops => exact congrArg Except.ok (List.append_nil ops)
  rw [Exporter.render, Exporter.render, ← single m, ← single n, h]

/-- The code of a document, or the error it is refused with, does not depend on white space
at the ends of text runs, nor on blank text runs. -/
theorem Document.render_spaced {doc doc' : Document}
    (spaced : Relation.EqvGen Spaced doc.children doc'.children) (options : CompileOptions)
    (e : Exporter) :
    (doc.compile options).map (fun c => e.render (.container c)) =
      (doc'.compile options).map fun c => e.render (.container c) := by
  suffices same : ∀ ns ns' : List Node, Relation.EqvGen Spaced ns ns' →
      (Document.compile options ⟨ns⟩).map (fun c => e.render (.container c)) =
        (Document.compile options ⟨ns'⟩).map fun c => e.render (.container c) from
    same doc.children doc'.children spaced
  intro ns ns' spaced
  induction spaced with
  | rel ns ns' step =>
    have outcome : SameOutcome _ (Document.compile options ⟨ns⟩) (Document.compile options ⟨ns'⟩) :=
      compile_spaced step
    exact outcome.map_eq fun _ _ alike => e.render_alike alike
  | refl => rfl
  | symm _ _ _ ih => exact ih.symm
  | trans _ _ _ _ _ first second => exact first.trans second

/-- A greeting in a paragraph, with the given text run. -/
def greeting (parts : List Part) : List Node :=
  [.tag ⟨some [.raw (utf8 "p")], none, false, false, {}⟩, .text parts,
    .tag ⟨some [.raw (utf8 "p")], none, true, false, {}⟩]

/-- Line breaks around the words of the paragraph, and a wide space before it. -/
theorem Document.render_spaced_greeting :
    Relation.EqvGen Spaced
      (greeting [.raw (utf8 "Hi "), .code ⟨.expression, utf8 "name", {}⟩])
      (.text [.raw (utf8 "\u3000"), .raw (utf8 "\n")] :: greeting
        [.raw (utf8 "\n\t" ++ utf8 "Hi "), .code ⟨.expression, utf8 "name", {}⟩, .raw (utf8 "\n")]) ∧
    ∀ (options : CompileOptions) (e : Exporter),
      (Document.compile options
          ⟨greeting [.raw (utf8 "Hi "), .code ⟨.expression, utf8 "name", {}⟩]⟩).map
          (fun c => e.render (.container c)) =
        (Document.compile options
          ⟨.text [.raw (utf8 "\u3000"), .raw (utf8 "\n")] :: greeting [.raw (utf8 "\n\t" ++ utf8 "Hi "),
            .code ⟨.expression, utf8 "name", {}⟩, .raw (utf8 "\n")]⟩).map
          fun c => e.render (.container c) := by
  have inserted : Spaced (greeting [.raw (utf8 "Hi "), .code ⟨.expression, utf8 "name", {}⟩])
      (.text [.raw (utf8 "\u3000"), .raw (utf8 "\n")] ::
        greeting [.raw (utf8 "Hi "), .code ⟨.expression, utf8 "name", {}⟩]) :=
    .insert [] _ (by decide +kernel)
  have before : Padded [.raw (utf8 "Hi "), .code ⟨.expression, utf8 "name", {}⟩]
      [.raw (utf8 "\n\t" ++ utf8 "Hi "), .code ⟨.expression, utf8 "name", {}⟩] :=
    .before (by decide +kernel)
  have behind : Padded [.raw (utf8 "\n\t" ++ utf8 "Hi "), .code ⟨.expression, utf8 "name", {}⟩]
      [.raw (utf8 "\n\t" ++ utf8 "Hi "), .code ⟨.expression, utf8 "name", {}⟩, .raw (utf8 "\n")] :=
    .last (by decide +kernel)
  have spaced := ((Relation.EqvGen.rel _ _ inserted).trans _ _ _
    (.rel _ _ (.text (_ :: [_]) [_] before))).trans _ _ _ (.rel _ _ (.text (_ :: [_]) [_] behind))
  exact ⟨spaced, fun options e => Document.render_spaced spaced options e⟩

end DomTemplate
