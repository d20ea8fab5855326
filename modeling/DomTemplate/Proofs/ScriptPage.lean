import DomTemplate.Page
import DomTemplate.Proofs.ScriptText
import Mathlib.Algebra.GroupWithZero.Nat

/-! Pages as frames around exported code. The markup of a page is the same for every template.
What would end a script or open a comment in it occurs in that markup only, if it does not occur
in the exported code: the names in a page are plain, the id of the mount element is escaped both
as code and as an attribute, and no seam between two pieces makes up an occurrence. -/

namespace DomTemplate
open Ascii Bytes

/-- Neither a tag nor a string between backticks starts in the prelude. -/
theorem not_mem_umdPrelude {b : UInt8} (mem : b = lt ∨ b = backtick) :
    b ∉ PageData.umdPrelude := by
  have single {s : Bytes} : Avoids s [b] ↔ b ∉ s := by
    rw [Avoids, List.singleton_infix_iff]
  have unlike : b ∉ utf8 "\n" ∧ lf ∉ [b] := by rcases mem with rfl | rfl <;> decide
  refine List.not_mem_append unlike.1
    (single.mp (avoids_join unlike.2 (by simp) ?_))
  simp only [single, List.forall_mem_cons, utf8_append, List.mem_append, not_or]
  rcases mem with rfl | rfl <;> and_intros <;>
    first | (rw [utf8_ofList]; decide +kernel) | simp

section Wrapped
variable {sub : Bytes} (broken : sub.Broken)
include broken

theorem avoids_indentLines (n : Nat) {s : Bytes} (h : Avoids s sub) :
    Avoids (indentLines n s) sub := by
  refine avoids_join (broken.not_mem (by decide)) broken.ne_nil fun line mem => ?_
  obtain ⟨piece, here, rfl⟩ := List.mem_map.mp mem
  have inside := h.inside (isInfix_of_mem_splitOn here)
  split
  · exact inside
  · have blanks : lt ∉ Bytes.replicate n space := fun mem =>
      absurd (List.eq_of_mem_replicate mem) (by decide)
    exact (broken.sealed_of_not_mem blanks).append_avoids inside broken.ne_nil

theorem sealed_quoteId (id : Bytes) : Sealed (quoteId id) sub := by
  have nonempty : ∀ rule ∈ quoteRules, rule.pattern ≠ [] := by decide
  have blunt : ∀ rule ∈ quoteRules, rule.Blunts sub := by
    rcases broken.cases with rfl | rfl <;> decide +kernel
  have pattern : ∃ rule ∈ quoteRules, rule.pattern = sub := by
    rcases broken.cases with rfl | rfl <;> decide
  have avoids := (Rule.replaced_applyAll nonempty id).avoids blunt broken.ne_nil (.inl pattern)
  have opens : Sealed [quote] sub := broken.sealed_of_not_mem (by decide)
  exact opens.append (broken.concat avoids (by decide)) broken.ne_nil

/-- A text between two others without `<`, the second on lines of its own. -/
theorem avoids_between {left s right : Bytes} (hl : lt ∉ left) (hs : Avoids s sub)
    (hr : lt ∉ right) (line : right.head? = some lf) : Avoids (left ++ s ++ right) sub := by
  obtain ⟨rest, rfl⟩ := List.head?_eq_some_iff.mp line
  have before := (broken.sealed_of_not_mem hl).append_avoids hs broken.ne_nil
  have after := broken.sealed_of_not_mem (List.not_mem_of_not_mem_cons hr)
  rw [List.append_cons]
  exact (broken.concat before (by decide)).append_avoids after.avoids broken.ne_nil

theorem sealed_lookup {left right id : Bytes} (hl : lt ∉ left) (hr : lt ∉ right) :
    Sealed (left ++ quoteId id ++ right) sub :=
  ((broken.sealed_of_not_mem hl).append (sealed_quoteId broken id) broken.ne_nil).append
    (broken.sealed_of_not_mem hr) broken.ne_nil

end Wrapped

/-- The names in a page hold no `<`. -/
structure PageData.Named (d : PageData) : Prop where
  viewModel : lt ∉ d.viewModel
  rootRef : lt ∉ d.rootRef
  document : lt ∉ d.document

section Wrapped
variable {sub : Bytes} (broken : sub.Broken) {d : PageData} (named : d.Named)
  (body : Avoids d.body sub)
include broken named body

theorem avoids_rubyClass : Avoids d.rubyClass sub := by
  obtain ⟨viewModel, rootRef, document⟩ := named
  have plain {s : Bytes} (absent : lt ∉ s) : Avoids s sub :=
    (broken.sealed_of_not_mem absent).avoids
  refine avoids_join (broken.not_mem (by decide)) broken.ne_nil ?_
  simp only [List.forall_mem_cons]
  refine ⟨plain ?_, plain ?_, plain ?_, plain ?_, plain ?_, plain ?_, plain ?_, plain ?_,
    avoids_indentLines broken 4 body, plain ?_, plain ?_, plain ?_, plain ?_, plain ?_, plain ?_,
    plain ?_, (sealed_lookup broken ?_ ?_).avoids, plain ?_, plain ?_, plain ?_, plain ?_,
    by simp⟩ <;> simp +decide [viewModel, rootRef, document]

theorem avoids_javascriptClass : Avoids d.javascriptClass sub := by
  obtain ⟨viewModel, rootRef, document⟩ := named
  have plain {s : Bytes} (absent : lt ∉ s) : Avoids s sub :=
    (broken.sealed_of_not_mem absent).avoids
  refine avoids_join (broken.not_mem (by decide)) broken.ne_nil ?_
  simp only [List.forall_mem_cons]
  refine ⟨plain ?_, plain ?_, plain ?_, plain ?_, plain ?_, plain ?_,
    (sealed_lookup broken ?_ ?_).avoids, avoids_indentLines broken 4 body, plain ?_, plain ?_,
    plain ?_, plain ?_, by simp⟩ <;> simp +decide [viewModel, rootRef, document]

end Wrapped

namespace PageItem

def markup? : PageItem → Option Bytes
  | markup text => some text
  | gap _ | script _ | mount _ => none

/-- The item ends in a byte that is in no tag opener or name: it leaves nothing begun. -/
def Ended (i : PageItem) : Prop := ∃ b ∈ [gt, space, lf], i.render.getLast? = some b

instance (i : PageItem) : Decidable i.Ended :=
  inferInstanceAs (Decidable (∃ b ∈ [gt, space, lf], i.render.getLast? = some b))

end PageItem

/-- Every item is ended, and only markup holds `sub`. -/
structure PageItems.Framed (sub : Bytes) (items : List PageItem) : Prop where
  ended : ∀ i ∈ items, i.Ended
  avoids : ∀ i ∈ items, i.markup? = none → Avoids i.render sub

instance (sub : Bytes) (items : List PageItem) : Decidable (PageItems.Framed sub items) :=
  decidable_of_iff ((∀ i ∈ items, i.Ended) ∧ ∀ i ∈ items, i.markup? = none → Avoids i.render sub)
    ⟨fun h => ⟨h.1, h.2⟩, fun h => ⟨h.ended, h.avoids⟩⟩

section Framed
variable {sub : Bytes} {items : List PageItem}

theorem PageItem.Ended.closed {i : PageItem} (h : i.Ended)
    (absent : ∀ b ∈ [gt, space, lf], b ∉ sub) : Closed i.render sub := by
  obtain ⟨b, mem, last⟩ := h
  exact closed_of_last last (absent b mem)

theorem PageItems.Framed.tail {i : PageItem} (h : Framed sub (i :: items)) : Framed sub items :=
  ⟨(List.forall_mem_cons.mp h.ended).2, (List.forall_mem_cons.mp h.avoids).2⟩

/-- An occurrence in a page lies in a piece of markup. -/
theorem PageItems.Framed.located (h : Framed sub items) (nonempty : sub ≠ [])
    (absent : ∀ b ∈ [gt, space, lf], b ∉ sub) {before after : Bytes}
    (whole : items.flatMap PageItem.render ++ [lf] = before ++ sub ++ after) :
    ∃ front text back u v, items = front ++ .markup text :: back ∧ text = u ++ sub ++ v ∧
      before = front.flatMap PageItem.render ++ u := by
  induction items generalizing before with
  | nil =>
    have line := (avoids_nil nonempty).concat (absent lf (by decide)) nonempty
    exact absurd ⟨before, after, whole.symm⟩ line.avoids
  | cons i items ih =>
    rw [List.flatMap_cons, List.append_assoc] at whole
    have closed := (h.ended i List.mem_cons_self).closed absent
    -- the item leaves nothing begun: the occurrence lies in it or after it
    rcases closed.occurrence_append nonempty whole with ⟨v, here⟩ | ⟨u, rfl, rest⟩
    · cases i with
      | markup text => exact ⟨[], text, items, before, v, rfl, here, rfl⟩
      | gap _ | script _ | mount _ =>
        exact absurd ⟨before, v, here.symm⟩ (h.avoids _ List.mem_cons_self rfl)
    · obtain ⟨front, text, back, u', v, rfl, inside, rfl⟩ := ih h.tail rest
      exact ⟨i :: front, text, back, u', v, rfl, inside, by simp⟩

theorem PageItems.Framed.occurrences_eq (h : Framed sub items) (nonempty : sub ≠ [])
    (absent : ∀ b ∈ [gt, space, lf], b ∉ sub) :
    sub.occurrences (items.flatMap PageItem.render ++ [lf]) =
      ((items.filterMap PageItem.markup?).map sub.occurrences).sum := by
  induction items with
  | nil =>
    have line := (avoids_nil nonempty).concat (absent lf (by decide)) nonempty
    exact occurrences_eq_zero line.avoids
  | cons i items ih =>
    have closed := (h.ended i List.mem_cons_self).closed absent
    rw [List.flatMap_cons, List.append_assoc, occurrences_append closed, ih h.tail]
    cases i with
    | markup text => rfl
    | gap _ | script _ | mount _ =>
      rw [occurrences_eq_zero (h.avoids _ List.mem_cons_self rfl), Nat.zero_add]
      rfl

theorem PageItems.Framed.append {more : List PageItem} (h : Framed sub items)
    (h' : Framed sub more) : Framed sub (items ++ more) :=
  ⟨List.forall_mem_append.mpr ⟨h.ended, h'.ended⟩, List.forall_mem_append.mpr ⟨h.avoids, h'.avoids⟩⟩

theorem PageItems.Framed.longer {sub' : Bytes} (h : Framed sub items) (inside : sub <:+: sub') :
    Framed sub' items :=
  ⟨h.ended, fun i mem other occurs => h.avoids i mem other (inside.trans occurs)⟩

theorem framed_markup {text last : String} (nonempty : utf8 last ≠ [])
    (ended : (utf8 last).getLast? = some gt) :
    PageItems.Framed sub [.markup (utf8 (text ++ last))] := by
  have whole : (PageItem.markup (utf8 (text ++ last))).Ended :=
    ⟨gt, by decide, by
      rw [PageItem.render, utf8_append, List.getLast?_append_of_ne_nil _ nonempty, ended]⟩
  exact ⟨by simpa using whole, by simp [PageItem.markup?]⟩

theorem framed_script {start text : Bytes} (first : (PageItem.markup start).Ended)
    (last : text.getLast? = some space) (avoids : Avoids text sub) :
    PageItems.Framed sub (PageItem.scriptItems start text) := by
  constructor
  · simp only [PageItem.scriptItems, List.forall_mem_cons]
    exact ⟨first, ⟨space, by decide, last⟩, by decide, by simp⟩
  · simp only [PageItem.scriptItems, List.forall_mem_cons]
    exact ⟨by simp [PageItem.markup?], fun _ => avoids, by simp [PageItem.markup?], by simp⟩

end Framed

namespace PageKind

/-- The end of the skeleton of a page. -/
def bodySkeleton : List Bytes := [utf8 "<body>", utf8 "</div>", utf8 "</body>", utf8 "</html>"]

/-- The markup of a page, which no template changes. -/
def skeleton : PageKind → List Bytes
  | bare | viewModel => []
  | iife =>
    [utf8 "<html>", utf8 "<head>", PageData.iifeLoader, utf8 "<script type=\"text/ruby\">",
      utf8 "</script>", utf8 "</head>"] ++ bodySkeleton
  | umd => [utf8 "<html>", PageData.umdLoader, utf8 "<script>", utf8 "</script>"] ++ bodySkeleton
  | moduleScript =>
    [utf8 "<html>", utf8 "<head>", utf8 "<script type=\"module\">", utf8 "</script>",
      utf8 "</head>"] ++ bodySkeleton

end PageKind

section Pages
variable {sub : Bytes} (broken : sub.Broken)
include broken

theorem framed_mount (id : Bytes) : PageItems.Framed sub [.mount id] := by
  have escaped : lt ∉ Markup.escape id :=
    (Rule.replaced_applyAll (by decide) id).not_mem (by decide) (by decide)
  have opens : Sealed (utf8 "<div id=\"") sub := by
    rcases broken.cases with rfl | rfl <;> decide
  have avoids : Avoids (PageItem.mount id).render sub :=
    ((opens.append (broken.sealed_of_not_mem escaped) broken.ne_nil).append
      (broken.sealed_of_not_mem (by decide)) broken.ne_nil).avoids
  have ended : (PageItem.mount id).Ended :=
    ⟨gt, by decide, List.getLast?_append_of_ne_nil _ (by decide)⟩
  exact ⟨by simpa using ended, by simpa using fun _ => avoids⟩

theorem framed_body (id : Bytes) : PageItems.Framed sub (PageItem.bodyItems id) := by
  have start : PageItems.Framed sub
      [.gap (utf8 "\n  "), .markup (utf8 "<body>"), .gap (utf8 "\n    ")] := by
    rcases broken.cases with rfl | rfl <;> decide
  have ending : PageItems.Framed sub
      [.markup (utf8 "</div>"), .gap (utf8 "\n  "), .markup (utf8 "</body>"), .gap (utf8 "\n"),
        .markup (utf8 "</html>")] := by
    rcases broken.cases with rfl | rfl <;> decide
  exact (start.append (framed_mount broken id)).append ending

end Pages

section Pages
variable {sub : Bytes} (broken : sub.Broken) {d : PageData} (named : d.Named)
  (body : Avoids d.body sub)
include broken named body

theorem framed_iife : PageItems.Framed sub d.iifeItems := by
  have start : PageItems.Framed sub [.markup (utf8 "<html>"), .gap (utf8 "\n  "),
      .markup (utf8 "<head>"), .gap (utf8 "\n    ")] := by
    rcases broken.cases with rfl | rfl <;> decide
  have loader : PageItems.Framed sub [.markup PageData.iifeLoader] :=
    framed_markup (by decide) (by decide +kernel)
  have line : PageItems.Framed sub [.gap (utf8 "\n    ")] := by
    rcases broken.cases with rfl | rfl <;> decide
  have ending : PageItems.Framed sub [.gap (utf8 "\n  "), .markup (utf8 "</head>")] := by
    rcases broken.cases with rfl | rfl <;> decide
  have code := avoids_indentLines broken 6 (avoids_rubyClass broken named body)
  have script : PageItems.Framed sub (PageItem.scriptItems (utf8 "<script type=\"text/ruby\">")
      (utf8 "\n      require 'js'\n\n" ++ indentLines 6 d.rubyClass ++ utf8 "\n    ")) :=
    framed_script (by decide) (List.getLast?_append_of_ne_nil _ (by decide))
      (avoids_between broken (by decide) code (by decide) (by decide))
  exact ((((start.append loader).append line).append script).append ending).append
    (framed_body broken d.rootId)

theorem framed_module : PageItems.Framed sub d.moduleItems := by
  have start : PageItems.Framed sub [.markup (utf8 "<html>"), .gap (utf8 "\n  "),
      .markup (utf8 "<head>"), .gap (utf8 "\n    ")] := by
    rcases broken.cases with rfl | rfl <;> decide
  have ending : PageItems.Framed sub [.gap (utf8 "\n  "), .markup (utf8 "</head>")] := by
    rcases broken.cases with rfl | rfl <;> decide
  have code := avoids_indentLines broken 6 (avoids_javascriptClass broken named body)
  have script : PageItems.Framed sub (PageItem.scriptItems (utf8 "<script type=\"module\">")
      (utf8 "\n" ++ indentLines 6 d.javascriptClass ++ utf8 "\n    ")) :=
    framed_script (by decide) (List.getLast?_append_of_ne_nil _ (by decide))
      (avoids_between broken (by decide) code (by decide) (by decide))
  exact ((start.append script).append ending).append (framed_body broken d.rootId)

theorem framed_umd : PageItems.Framed sub d.umdItems := by
  have start : PageItems.Framed sub [.markup (utf8 "<html>"), .gap (utf8 "\n  ")] := by
    rcases broken.cases with rfl | rfl <;> decide
  have loader : PageItems.Framed sub [.markup PageData.umdLoader] :=
    framed_markup (by decide) (by decide +kernel)
  have line : PageItems.Framed sub [.gap (utf8 "\n  ")] := by
    rcases broken.cases with rfl | rfl <;> decide
  have blunt : ∀ rule ∈ backtickRules, rule.Blunts sub := by
    rcases broken.cases with rfl | rfl <;> decide +kernel
  -- the class is escaped once more for the backticks around it
  have escaped : Avoids (Rule.applyAll backtickRules d.rubyClass) sub :=
    (Rule.replaced_applyAll (by decide) d.rubyClass).avoids blunt broken.ne_nil
      (.inr (avoids_rubyClass broken named body))
  have code : Avoids ((PageData.umdPrelude ++ [backtick] ++ utf8 "\n        require 'js'\n\n") ++
      indentLines 8 (Rule.applyAll backtickRules d.rubyClass) ++
      (utf8 "\n      " ++ [backtick] ++ PageData.umdEnd)) sub :=
    avoids_between broken
      (List.not_mem_append (List.not_mem_append (not_mem_umdPrelude (.inl rfl)) (by decide)) (by decide))
      (avoids_indentLines broken 8 escaped) (by decide) (by decide)
  have script : PageItems.Framed sub (PageItem.scriptItems (utf8 "<script>")
      (PageData.umdPrelude ++ [backtick] ++ d.umdProgram ++ [backtick] ++ PageData.umdEnd)) := by
    refine framed_script (by decide) ?_ ?_
    · rw [List.getLast?_append_of_ne_nil _ (by decide)]
      decide
    · simpa only [PageData.umdProgram, List.append_assoc] using code
  exact (((start.append loader).append line).append script).append (framed_body broken d.rootId)

omit named body in
theorem wrap_framed {kind : PageKind} (html : kind.isHtml = true) (target : Target)
    {data : PageData} (plain : data.withDefaults.Named) (code : Avoids data.body sub) :
    ∃ items, Page.wrap kind target data = .html items ∧ PageItems.Framed sub items ∧
      items.filterMap PageItem.markup? = kind.skeleton ∧
      items = items.dropLast ++ [.markup (utf8 "</html>")] := by
  cases kind with
  | bare | viewModel => cases html
  | iife => exact ⟨_, rfl, framed_iife broken plain code, rfl, rfl⟩
  | umd => exact ⟨_, rfl, framed_umd broken plain code, rfl, rfl⟩
  | moduleScript => exact ⟨_, rfl, framed_module broken plain code, rfl, rfl⟩

end Pages

end DomTemplate
