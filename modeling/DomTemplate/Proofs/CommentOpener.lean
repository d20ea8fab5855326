import DomTemplate.Proofs.ScriptEnd
import Mathlib.Data.Bool.AllAny

/-! Where a comment opener comes from in exported code. Text, attributes and names with code in
them are escaped, so that an opener in the code of a template without one in its own code can only
stand in the name of an element: a name without code is written in single quotes, where nothing
but backslashes and apostrophes is escaped. In a page the mount element could hold another one,
whose id is not escaped when the page is minified. -/

namespace DomTemplate
open Ascii Bytes

namespace Bytes
variable {sub a b s t : Bytes}

/-- What comes after bytes that are not in `sub` holds every occurrence of it. -/
theorem isInfix_of_append (nonempty : sub ≠ []) (apart : ∀ c ∈ a, c ∉ sub) (h : sub <:+: a ++ b) :
    sub <:+: b := by
  obtain ⟨c, rest, rfl⟩ := List.exists_cons_of_ne_nil nonempty
  have before : Sealed a (c :: rest) :=
    sealed_of_not_mem rfl fun mem => apart c mem List.mem_cons_self
  by_contra absent
  exact before.append_avoids absent nonempty h

theorem isInfix_dropLeading {set : List Bytes} (nonempty : sub ≠ [])
    (apart : ∀ blank ∈ set, ∀ c ∈ blank, c ∉ sub) (h : sub <:+: s) :
    sub <:+: dropLeading set s := by
  fun_induction dropLeading set s with
  | case1 s rest found shorter ih =>
    obtain ⟨blank, mem, dropped⟩ := List.exists_of_findSome?_eq_some found
    rw [dropPrefix?_eq_some.mp dropped] at h
    exact ih (isInfix_of_append nonempty (apart blank mem) h)
  | case2 | case3 => exact h

/-- Trimming takes nothing off an occurrence without white space. -/
theorem avoids_trim (nonempty : sub ≠ []) (apart : ∀ blank ∈ blanks, ∀ c ∈ blank, c ∉ sub) :
    Avoids (trim s) sub ↔ Avoids s sub := by
  refine ⟨fun trimmed occurs => trimmed ?_, fun h => h.inside (isInfix_trim s)⟩
  have left : sub <:+: trimLeft s := isInfix_dropLeading nonempty apart occurs
  rw [trim, trimRight, ← List.reverse_infix, List.reverse_reverse]
  refine isInfix_dropLeading (by simpa using nonempty) ?_ (List.reverse_infix.mpr left)
  intro blank mem
  obtain ⟨blank, listed, rfl⟩ := List.mem_map.mp mem
  simpa using apart blank listed

end Bytes

namespace Rule.Replaced
variable {rules : List Rule} {s t sub : Bytes}

/-- Bytes that are in no pattern and begin a text begin the replaced text. -/
theorem keeps_front (h : Replaced rules s t) (apart : ∀ rule ∈ rules, ∀ c ∈ rule.pattern, c ∉ sub)
    (nonempty : ∀ rule ∈ rules, rule.pattern ≠ []) {p : Bytes} (inside : ∀ c ∈ p, c ∈ sub)
    (front : p <+: s) : p <+: t := by
  induction h generalizing p with
  | nil => exact front
  | @keep c s t unruled rest ih =>
    cases p with
    | nil => exact List.nil_prefix
    | cons b p =>
      rw [List.forall_mem_cons] at inside
      obtain ⟨rfl, rest_front⟩ := List.cons_prefix_cons.mp front
      exact List.cons_prefix_cons.mpr ⟨rfl, ih inside.2 rest_front⟩
  | @apply rule s t mem rest ih =>
    cases p with
    | nil => exact List.nil_prefix
    | cons b p =>
      obtain ⟨c, pattern, same⟩ := List.exists_cons_of_ne_nil (nonempty rule mem)
      rw [same] at front
      obtain ⟨rfl, -⟩ := List.cons_prefix_cons.mp front
      exact absurd (inside b List.mem_cons_self)
        (apart rule mem b (by rw [same]; exact List.mem_cons_self))

theorem keeps (h : Replaced rules s t) (apart : ∀ rule ∈ rules, ∀ c ∈ rule.pattern, c ∉ sub)
    (nonempty : ∀ rule ∈ rules, rule.pattern ≠ []) (filled : sub ≠ []) (occurs : sub <:+: s) :
    sub <:+: t := by
  induction h with
  | nil => exact occurs
  | @keep c s t unruled rest ih =>
    rcases List.infix_cons_iff.mp occurs with front | later
    · exact ((keep unruled rest).keeps_front apart nonempty (fun _ mem => mem) front).isInfix
    · exact (ih later).trans (List.suffix_cons c t).isInfix
  | @apply rule s t mem rest ih =>
    have later := isInfix_of_append filled (apart rule mem) occurs
    exact (ih later).trans (List.suffix_append _ t).isInfix

end Rule.Replaced

/-- The names of the opening tags that show no code. -/
def Document.plainNames (doc : Document) : List Bytes := doc.children.filterMap Node.plainName?

section Names
variable {options : CompileOptions} {root : Bytes}

theorem create_mem_translate {t : Tag} (opening : t.closing = false) {ns : List Node}
    (mem : .tag t ∈ ns) (stack issued : List Bytes) :
    ∃ ref, .create ref (namedText (t.name.getD [])) ∈
      translate root stack (labelled options issued ns) := by
  induction ns generalizing stack issued with
  | nil => cases mem
  | cons n ns ih =>
    obtain ⟨ref, issued', label, -, -⟩ := labelled_cons options issued n ns
    rw [label, translate]
    rcases List.mem_cons.mp mem with rfl | later
    · refine ⟨ref, List.mem_append_left _ ?_⟩
      rw [childOps, opening, if_neg Bool.false_ne_true]
      exact List.mem_cons_self
    · obtain ⟨ref', created⟩ := ih later (stackAfter stack ref n) issued'
      exact ⟨ref', List.mem_append_right _ created⟩

/-- A name without code stands in the line that creates its element, as far as it holds neither
backslashes nor apostrophes. -/
theorem isInfix_lines {e : Exporter} {sub : Bytes} {ref : Bytes} {name : List Part}
    {ops : List DomOp} (created : .create ref (namedText name) ∈ ops)
    (plain : name.any Part.isExpression = false) (filled : sub ≠ [])
    (apart : ∀ rule ∈ Target.singleQuoteRules, ∀ c ∈ rule.pattern, c ∉ sub)
    (occurs : sub <:+: name.flatMap Part.literalText) : sub <:+: e.lines ops := by
  have codeless : (namedText name).any Fragment.isCode = false := by rw [isCode_namedText, plain]
  have nonempty : ∀ rule ∈ Target.singleQuoteRules, rule.pattern ≠ [] := by decide
  have quoted : sub <:+: e.tagName (namedText name) := by
    rw [Exporter.tagName, codeless, if_neg Bool.false_ne_true, text_namedText codeless]
    have kept := (Rule.replaced_applyAll nonempty _).keeps apart nonempty filled occurs
    exact kept.trans ⟨[apostrophe], [apostrophe], rfl⟩
  have line :
      e.tagName (namedText name) <:+: e.statement (.create ref (namedText name)) ++ [lf] := by
    simp only [Exporter.statement, Target.createElement, List.append_assoc]
    iterate 4 refine List.IsInfix.trans ?_ (List.suffix_append _ _).isInfix
    exact (List.prefix_append _ _).isInfix
  obtain ⟨before, after, rfl⟩ := List.append_of_mem created
  refine (quoted.trans line).trans ⟨e.lines before, e.lines after, ?_⟩
  simp [Exporter.lines]

end Names

section Pages
variable {sub : Bytes}

/-- Sealed pieces put end to end. -/
theorem Bytes.Sealed.flatMap {α : Type} {f : α → Bytes} {xs : List α} (nonempty : sub ≠ [])
    (each : ∀ x ∈ xs, Sealed (f x) sub) : Sealed (xs.flatMap f) sub := by
  induction xs with
  | nil =>
    exact ⟨avoids_nil nonempty, fun u ending filled => absurd (List.suffix_nil.mp ending) filled⟩
  | cons x xs ih =>
    rw [List.forall_mem_cons] at each
    rw [List.flatMap_cons]
    exact each.1.append (ih each.2) nonempty

theorem ampersands_front (apart : amp ∉ sub) {s p : Bytes} (inside : ∀ c ∈ p, c ∈ sub)
    (front : p <+: ampersands s) : p <+: s := by
  induction s generalizing p with
  | nil => exact front
  | cons c s ih =>
    cases p with
    | nil => exact List.nil_prefix
    | cons b p =>
      rw [List.forall_mem_cons] at inside
      rw [ampersands] at front
      split at front
      · obtain ⟨rfl, -⟩ := List.cons_prefix_cons.mp front
        exact absurd inside.1 apart
      · obtain ⟨rfl, later⟩ := List.cons_prefix_cons.mp front
        exact List.cons_prefix_cons.mpr ⟨rfl, ih inside.2 later⟩

theorem avoids_ampersands (nonempty : sub ≠ []) (apart : ∀ c ∈ utf8 "&amp;", c ∉ sub) {s : Bytes}
    (h : Avoids s sub) : Avoids (ampersands s) sub := by
  induction s with
  | nil => exact h
  | cons c s ih =>
    have later := ih (h.inside (List.suffix_cons c s).isInfix)
    intro occurs
    rw [ampersands] at occurs
    split at occurs
    · exact later (isInfix_of_append nonempty apart occurs)
    · rename_i kept
      rcases List.infix_cons_iff.mp occurs with front | inside
      · have whole : sub <+: ampersands (c :: s) := by rwa [ampersands, if_neg kept]
        exact h (ampersands_front (apart amp (by decide)) (fun _ mem => mem) whole).isInfix
      · exact later inside

theorem sealed_quoteAttribute (broken : sub.Broken) {value : Bytes} (h : Avoids value sub) :
    Sealed (quoteAttribute value) sub := by
  have between {mark : UInt8} {rules : List Rule} (outer : mark ∉ [lt, slash, bang, dash])
      (nonempty : ∀ rule ∈ rules, rule.pattern ≠ []) (blunt : ∀ rule ∈ rules, rule.Blunts sub) :
      Sealed (mark :: Rule.applyAll rules value ++ [mark]) sub := by
    have opens : Sealed [mark] sub := broken.sealed_of_not_mem fun mem => outer (by
      rw [List.mem_singleton.mp mem]
      exact List.mem_cons_self)
    have avoids := (Rule.replaced_applyAll nonempty value).avoids blunt broken.ne_nil (.inr h)
    exact opens.append (broken.concat avoids outer) broken.ne_nil
  rw [quoteAttribute]
  split
  · refine between (by decide) (by decide) ?_
    rcases broken.cases with rfl | rfl <;> decide +kernel
  · refine between (by decide) (by decide) ?_
    rcases broken.cases with rfl | rfl <;> decide +kernel

/-- An item of a page, minified or not, leaves nothing begun, and holds `sub` only if it is markup
that does, or a mount element whose id does and is minified. -/
theorem PageItems.Framed.sealed (broken : sub.Broken) {items : List PageItem} (h : Framed sub items)
    (markup : ∀ text ∈ items.filterMap PageItem.markup?, Avoids text sub) (i : PageItem)
    (mem : i ∈ items) :
    Sealed i.render sub ∧
      ((∀ id, i = .mount id → Avoids id sub) → Sealed i.renderMinified sub) := by
  have absent : ∀ b ∈ [gt, space, lf], b ∉ sub := by
    rcases broken.cases with rfl | rfl <;> decide +kernel
  have closed := (h.ended i mem).closed absent
  have avoids : Avoids i.render sub := by
    cases kept : i.markup? with
    | none => exact h.avoids i mem kept
    | some text =>
      cases i with
      | markup text' => exact markup text' (List.mem_filterMap.mpr ⟨_, mem, rfl⟩)
      | gap | script | mount => cases kept
  refine ⟨⟨avoids, closed⟩, fun mounts => ?_⟩
  cases i with
  | markup | script => exact ⟨avoids, closed⟩
  | gap => exact broken.sealed_of_not_mem List.not_mem_nil
  | mount id =>
    have opens : Sealed (utf8 "<div id=") sub := by
      rcases broken.cases with rfl | rfl <;> decide
    have apart : ∀ c ∈ utf8 "&amp;", c ∉ sub := by
      rcases broken.cases with rfl | rfl <;> decide +kernel
    have value := avoids_ampersands broken.ne_nil apart (mounts id rfl)
    exact (opens.append (sealed_quoteAttribute broken value) broken.ne_nil).append
      (broken.sealed_of_not_mem (by decide)) broken.ne_nil

theorem mount_mem_wrap {kind : PageKind} {target : Target} {data : PageData} {items : List PageItem}
    {id : Bytes} (page : Page.wrap kind target data = .html items) (mem : .mount id ∈ items) :
    id = data.withDefaults.rootId := by
  cases kind with
  | bare | viewModel => cases page
  | iife | umd | moduleScript =>
    cases page
    simpa [PageData.iifeItems, PageData.umdItems, PageData.moduleItems, PageItem.scriptItems,
      PageItem.bodyItems] using mem

end Pages

namespace Pipeline
variable {c : Config} {p : Pipeline} {src : Bytes} {doc : Document}

theorem broken_opener : (utf8 "<!--").Broken := List.mem_cons_of_mem _ List.mem_cons_self

/-- Exported code holds a comment opener exactly if a name without code does. -/
theorem avoids_opener (plain : p.config.Plain) {content : Container Intent} {code : Bytes}
    (compiled : doc.compile p.compileOptions = .ok content)
    (rendered : p.exporter.render (.container content) = .ok code)
    (quiet : ∀ n ∈ doc.children, n.Quiet (utf8 "<!--")) :
    Avoids code (utf8 "<!--") ↔ ∀ name ∈ doc.plainNames, Avoids name (utf8 "<!--") := by
  constructor
  · intro avoids name mem occurs
    obtain ⟨n, child, named⟩ := List.mem_filterMap.mp mem
    have lines : p.exporter.render (.container content) = .ok (p.exporter.lines
        (translate p.exporter.root [] (labelled p.compileOptions [] doc.children))).trim :=
      doc.render_lines p.target p.config.document p.text compiled
    rw [rendered, Except.ok.injEq] at lines
    have unblank : ∀ c ∈ blanks.flatten, c ∉ utf8 "<!--" :=
      List.all_iff_forall_prop.mp (by decide +kernel)
    have apart : ∀ blank ∈ blanks, ∀ c ∈ blank, c ∉ utf8 "<!--" := fun blank mem c inBlank =>
      unblank c (List.mem_flatten_of_mem mem inBlank)
    rw [lines, avoids_trim (by decide) apart] at avoids
    cases n with
    | tag t =>
      rw [Node.plainName?] at named
      split at named
      · cases named
      · rename_i shown
        cases named
        rw [Bool.or_eq_true, not_or, Bool.not_eq_true, Bool.not_eq_true] at shown
        obtain ⟨ref, created⟩ := create_mem_translate shown.1 child [] []
        exact avoids (isInfix_lines created shown.2 (by decide) (by decide +kernel) occurs)
    | _ => cases named
  · intro names
    exact avoids_render broken_opener plain compiled rendered quiet fun n mem text named =>
      names text (List.mem_filterMap.mpr ⟨n, mem, named⟩)

theorem avoids_skeleton (kind : PageKind) :
    ∀ text ∈ kind.skeleton, Avoids text (utf8 "<!--") := by
  cases kind with
  | bare | viewModel => exact fun text mem => absurd mem List.not_mem_nil
  | iife =>
    rw [PageKind.skeleton, PageData.iifeLoader, utf8_append]
    repeat rw [utf8_ofList]
    decide +kernel
  | umd =>
    rw [PageKind.skeleton, PageData.umdLoader, utf8_append]
    repeat rw [utf8_ofList]
    decide +kernel
  | moduleScript => decide +kernel

theorem avoids_endLine {sub s : Bytes} (broken : sub.Broken) (h : Sealed s sub) :
    Avoids (endLine s) sub := by
  unfold endLine
  split
  · exact h.avoids
  · exact h.append_avoids (broken.sealed_of_not_mem (by decide)).avoids broken.ne_nil

/-- A page around code without a comment opener holds none, unless the id of its mount element does
and is minified. -/
theorem avoids_wrap (plain : p.config.Plain) (html : p.kind.isHtml = true) {path code : Bytes}
    (avoids : Avoids code (utf8 "<!--"))
    (mount : p.config.minify = true → Avoids p.config.rootId (utf8 "<!--")) :
    Avoids (p.wrap path code) (utf8 "<!--") := by
  obtain ⟨items, page, framed, skeleton, -⟩ :=
    wrap_framed broken_opener html p.target (named_pageData plain path code) avoids
  have item := framed.sealed broken_opener (skeleton ▸ avoids_skeleton p.kind)
  have shown : Sealed (if p.config.minify then (Page.html items).renderMinified
      else (Page.html items).render) (utf8 "<!--") := by
    split
    · rename_i minified
      refine Sealed.flatMap (by decide) fun i mem => (item i mem).2 fun id same => ?_
      subst same
      rw [mount_mem_wrap page mem]
      show Avoids (if p.config.rootId.isEmpty then utf8 "root" else p.config.rootId) _
      split
      · decide
      · exact mount minified
    · exact Sealed.flatMap (by decide) fun i mem => (item i mem).1
  rw [wrap, page]
  exact avoids_endLine broken_opener shown

/-- If the code and the handlers of a template hold no comment opener, its exported code holds one
exactly if the name of an element without code in it does. Otherwise no page for it holds one
either, apart from a minified page whose mount element has an id with an opener in it. -/
theorem comment_openers (valid : ofConfig c = .ok p)
    (read : Document.parse p.delimiters src = .ok doc)
    (quiet : ∀ n ∈ doc.children, n.Quiet (utf8 "<!--")) :
    (∀ code, p.body src = .ok code →
      (Avoids code (utf8 "<!--") ↔ ∀ name ∈ doc.plainNames, Avoids name (utf8 "<!--"))) ∧
    ∀ path built, p.kind.isHtml = true → p.file path src .code = .ok built →
      (∀ name ∈ doc.plainNames, Avoids name (utf8 "<!--")) →
      (c.minify = true → Avoids c.rootId (utf8 "<!--")) →
      Avoids built.content (utf8 "<!--") := by
  obtain ⟨rfl, fine⟩ := config_eq valid
  have plain := Config.plain_of_problems fine
  constructor
  · intro code builds
    obtain ⟨content, intents, exported⟩ := exists_of_bind_ok builds
    obtain ⟨doc', parsed, compiled⟩ := parse_of_intents intents
    cases read.symm.trans parsed
    exact avoids_opener plain compiled (render_of_codeOf exported) quiet
  · intro path built html builds names root
    obtain ⟨doc', content, code, parsed, compiled, rendered, wrapped⟩ := file_code builds
    cases read.symm.trans parsed
    rw [wrapped]
    exact avoids_wrap plain html ((avoids_opener plain compiled rendered quiet).mpr names) root

/-- The name of an element can hold a comment opener, which stands as it is in the code. -/
theorem comment_opener_in_name :
    let c : Config := { target := utf8 "js", template := utf8 "raw" }
    let p : Pipeline := ⟨c, .brace, .javascript, .node, .bare⟩
    let name := some [Part.raw (utf8 "a<!--")]
    let doc : Document := ⟨[.tag ⟨name, none, false, false, ⟨0, 1, 1⟩⟩,
      .tag ⟨name, none, true, false, ⟨7, 1, 8⟩⟩]⟩
    ofConfig c = .ok p ∧ Document.parse .brace (utf8 "<a<!--></a<!-->") = .ok doc ∧
      (∀ n ∈ doc.children, n.Quiet (utf8 "<!--")) ∧
      p.body (utf8 "<a<!--></a<!-->") =
        .ok (utf8 "const a_____1 = document.createElement('a<!--');\nroot.appendChild(a_____1);") := by
  refine ⟨rfl, ?_, ?_, ?_⟩
  · decide +kernel
  · decide +kernel
  · repeat rw [utf8_ofList]
    decide +kernel

def openerConfig : Config := { target := utf8 "js", template := utf8 "module", minify := true }

def openerPipeline : Pipeline := ⟨openerConfig, .brace, .javascript, .node, .moduleScript⟩

/-- A comment opener as a text, in an attribute and in front of the code of a name. -/
def shownOpener : Bytes :=
  utf8 "<p title=\"<!--\">&#60;!--<a<!--\x7b=t\x7d></a<!--\x7b=t\x7d></p>"

def shownOpenerDocument : Document where
  children := [
    .tag ⟨some [.raw (utf8 "p")],
      some [some ⟨some [.raw (utf8 "title")], some ⟨some .double, [.raw (utf8 "<!--")]⟩,
        ⟨3, 1, 4⟩⟩], false, false, ⟨0, 1, 1⟩⟩,
    .text [.raw (utf8 "<!--")],
    .tag ⟨some [.raw (utf8 "a<!--"), .code ⟨.expression, utf8 "t", ⟨30, 1, 31⟩⟩], none, false,
      false, ⟨24, 1, 25⟩⟩,
    .tag ⟨some [.raw (utf8 "a<!--"), .code ⟨.expression, utf8 "t", ⟨42, 1, 43⟩⟩], none, true,
      false, ⟨35, 1, 36⟩⟩,
    .tag ⟨some [.raw (utf8 "p")], none, true, false, ⟨47, 1, 48⟩⟩]

theorem comment_openers_shown :
    ofConfig openerConfig = .ok openerPipeline ∧ ∃ code built,
      openerPipeline.body shownOpener = .ok code ∧ Avoids code (utf8 "<!--") ∧
      openerPipeline.file (utf8 "a.html") shownOpener .code = .ok built ∧
      Avoids built.content (utf8 "<!--") := by
  have read : Document.parse .brace shownOpener = .ok shownOpenerDocument := by decide +kernel
  have quiet : ∀ n ∈ shownOpenerDocument.children, n.Quiet (utf8 "<!--") := by decide +kernel
  have names : ∀ name ∈ shownOpenerDocument.plainNames, Avoids name (utf8 "<!--") := by
    decide +kernel
  have accepted :
      (openerPipeline.file (utf8 "a.html") shownOpener .code).toOption.isSome = true := by
    decide +kernel
  have exported : (openerPipeline.body shownOpener).toOption.isSome = true := by decide +kernel
  have openers := comment_openers (c := openerConfig) (p := openerPipeline) rfl read quiet
  cases coded : openerPipeline.body shownOpener with
  | error e => rw [coded] at exported; cases exported
  | ok code =>
    cases builds : openerPipeline.file (utf8 "a.html") shownOpener .code with
    | error e => rw [builds] at accepted; cases accepted
    | ok built =>
      exact ⟨rfl, code, built, rfl, (openers.1 code coded).mpr names, rfl,
        openers.2 _ built rfl builds names fun _ => by decide⟩

end Pipeline

end DomTemplate
