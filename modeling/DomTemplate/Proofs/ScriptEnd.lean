import DomTemplate.Pipeline
import DomTemplate.Proofs.Reading
import DomTemplate.Proofs.ScriptPage

/-! Scripts that end where their page says. Every closing tag in a built page belongs to the
markup of the page, as long as the code of the template and the handlers of its events hold
none: a tag name that was read holds no slash, and all other text of a template is escaped. -/

namespace DomTemplate
open Ascii Bytes

section Names

theorem lt_not_mem_identifier {s : Bytes} (h : isIdentifier s = true) : lt ∉ s := by
  have other : ∀ b : UInt8, (isAlphanumeric b || b == underscore) = true → b ≠ lt :=
    Bytes.forall_byte (by decide +kernel)
  cases s with
  | nil => exact List.not_mem_nil
  | cons c s =>
    simp only [isIdentifier, Bool.and_eq_true, List.all_eq_true] at h
    have first : (isAlphanumeric c || c == underscore) = true := by
      have letter := h.1
      simp only [isAlphanumeric, Bool.or_eq_true] at letter ⊢
      exact letter.imp_left .inl
    intro mem
    rcases List.mem_cons.mp mem with same | mem
    · exact other c first same.symm
    · exact other lt (h.2 lt mem) rfl

/-- Only an ASCII character is written with an ASCII byte. -/
theorem CodePoint.eq_of_mem_encode {r : Nat} {b : UInt8} (ascii : b < 0x80)
    (h : b ∈ encode r) : r = b.toNat := by
  have small : b.toNat < 0x80 := UInt8.lt_iff_toNat_lt.mp ascii
  -- the longer forms have no byte below 0x80, neither in front nor behind
  have lead {n : Nat} (fits : n < 256) (high : 0x80 ≤ n) : b ≠ n.toUInt8 := by
    rintro rfl
    simp only [Nat.toUInt8, UInt8.toNat_ofNat'] at small
    omega
  have tail (n : Nat) : b ≠ trail n := by
    rintro rfl
    rw [toNat_trail] at small
    omega
  rw [encode] at h
  by_cases one : r < 0x80
  · rw [if_pos one, List.mem_singleton] at h
    rw [h]
    simp only [Nat.toUInt8, UInt8.toNat_ofNat']
    omega
  rw [if_neg one] at h
  by_cases two : r < 0x800
  · simp only [if_pos two, List.mem_cons, tail, List.not_mem_nil, or_false] at h
    exact absurd h (lead (by omega) (by omega))
  rw [if_neg two] at h
  by_cases scalar : isScalar r = true
  · rw [scalar, if_neg (by simp)] at h
    have last := le_of_isScalar scalar
    by_cases three : r < 0x10000
    · simp only [if_pos three, List.mem_cons, tail, List.not_mem_nil, or_false] at h
      exact absurd h (lead (by omega) (by omega))
    · simp only [if_neg three, List.mem_cons, tail, List.not_mem_nil, or_false] at h
      exact absurd h (lead (by omega) (by omega))
  · rw [if_pos (by simpa using scalar)] at h
    have high : ∀ x ∈ ([0xEF, 0xBF, 0xBD] : Bytes), 0x80 ≤ x.toNat := by simp
    exact absurd (high b h) (by omega)

theorem CodePoint.not_sign_lt : ¬(isLetter 0x3C || isDigit 0x3C) = true := by decide +kernel

theorem CodePoint.toUpper_ne {r : Nat} (h : (isLetter r || isDigit r) = true) :
    toUpper r ≠ 0x3C := by
  have above : ∀ run ∈ upperRuns, (0x3C : Int) < run.first + run.shift := by decide +kernel
  rw [toUpper]
  split
  · rename_i run found
    have inside := List.find?_some found
    simp only [Bool.and_eq_true, decide_eq_true_eq] at inside
    have far {first : Nat} {shift : Int} (start : first ≤ r) (up : 0x3C < first + shift) :
        (r + shift).toNat ≠ 0x3C := by omega
    exact far inside.1.1 (above run (List.mem_of_find?_eq_some found))
  · rintro rfl
    exact not_sign_lt h

namespace Page

theorem NameState.push_ne {s : NameState} {r : CodePoint} (h : ∀ q ∈ s.name, q ≠ 0x3C) :
    ∀ q ∈ (s.push r).name, q ≠ 0x3C := by
  rw [NameState.push]
  split
  · rename_i sign
    have cased : (if s.wordStart then CodePoint.toUpper r else r) ≠ 0x3C := by
      split
      · exact CodePoint.toUpper_ne sign
      · rintro rfl
        exact CodePoint.not_sign_lt sign
    have lead : ∀ q ∈ (if s.name.isEmpty && CodePoint.isDigit r then [0x56] else [] : List Nat),
        q ≠ 0x3C := by
      split <;> simp
    exact List.forall_mem_append.mpr ⟨List.forall_mem_append.mpr ⟨h, lead⟩, by simpa using cased⟩
  · exact h

theorem lt_not_mem_viewModelName (path : Bytes) : lt ∉ viewModelName path := by
  have signs (units : List TextUnit) {s : NameState} (h : ∀ q ∈ s.name, q ≠ 0x3C) :
      ∀ q ∈ (units.foldl NameState.pushUnit s).name, q ≠ 0x3C := by
    induction units generalizing s with
    | nil => exact h
    | cons unit units ih =>
      refine ih ?_
      cases unit with
      | codePoint r => exact NameState.push_ne h
      | stray b => exact h
  rw [viewModelName]
  split
  · decide
  · intro mem
    obtain ⟨q, here, mem⟩ := List.mem_flatMap.mp mem
    exact signs _ (by simp) q here (CodePoint.eq_of_mem_encode (by decide) mem)

end Page

end Names

section Reading

/-- The literal parts of a text lie inside it. -/
theorem expand_raws (blocks : List (Nat × Block)) (src s : Bytes) :
    Answers (fun _ => True) (fun parts => ∀ value, .raw value ∈ parts → value <:+: s)
      (expand src blocks s) := by
  fun_induction expand src blocks s with
  | case1 s empty => exact fun value mem => absurd mem List.not_mem_nil
  | case2 s text first =>
    intro value mem
    cases List.mem_singleton.mp mem
    exact List.infix_rfl
  | case3 | case4 => trivial
  | case5 s text head offset b rest first shorter ih =>
    obtain ⟨-, front, back⟩ := firstMark_block first
    refine ih.map fun parts known value mem => ?_
    have later (mem : .raw value ∈ parts) : value <:+: s := (known value mem).trans back.isInfix
    split at mem
    · exact later (by simpa using mem)
    · rcases List.mem_cons.mp mem with same | mem
      · cases same
        exact front.isInfix
      · exact later (by simpa using mem)

theorem Answers.any {α : Type} (r : Except Failure α) :
    Answers (fun _ => True) (fun _ => True) r := by
  cases r <;> trivial

/-- The literal text of a tag name. -/
def Tag.nameText (t : Tag) : Bytes := (t.name.getD []).flatMap Part.literalText

/-- A tag name is read up to a slash at most. -/
theorem MaskedSource.tag_name (m : MaskedSource) (raw : Bytes) (start opener : Nat)
    (closing solidus : Bool) :
    Answers (fun _ => True) (fun t => slash ∉ t.nameText)
      (m.tag raw start opener closing solidus) := by
  have lowered : ∀ b, Ascii.lower b = slash → Markup.endsName b = true :=
    Bytes.forall_byte (by decide +kernel)
  rw [tag]
  refine (expand_raws m.masked.blocks m.src _).bind fun parts inside => ?_
  have plain : slash ∉ parts.flatMap Part.literalText := by
    intro mem
    obtain ⟨p, here, mem⟩ := List.mem_flatMap.mp mem
    cases p with
    | raw value =>
      obtain ⟨b, read, same⟩ := List.mem_map.mp ((inside value here).subset mem)
      have goes_on : (!Markup.endsName b) = true :=
        List.mem_takeWhile_imp (p := fun x => !Markup.endsName x) read
      rw [lowered b same] at goes_on
      cases goes_on
    | absent | code | misplaced => cases mem
  cases closing with
  | true => exact plain
  | false => exact Answers.bind (Answers.any _) fun attrs _ => plain

theorem MaskedSource.node?_name (m : MaskedSource) (start : Nat) (t : Markup.Token) :
    Answers (fun _ => True) (fun n => ∀ t, n = some (.tag t) → slash ∉ t.nameText)
      (m.node? start t) := by
  cases t with
  | text raw shown =>
    refine (Answers.any _).bind fun parts _ t same => ?_
    split at same <;> cases same
  | startTag raw parts =>
    refine (m.tag_name raw start 1 false parts.solidus).bind fun t named => ?_
    rintro _ ⟨⟩
    exact named
  | endTag raw =>
    refine (m.tag_name raw start 2 true false).bind fun t named => ?_
    rintro _ ⟨⟩
    exact named
  | comment raw text => exact (Answers.any _).bind fun text _ t same => by cases same
  | doctype raw text => exact fun t same => by cases same
  | unfinished raw => trivial

theorem MaskedSource.nodes_names (m : MaskedSource) (start : Nat) (ts : List Markup.Token) :
    Answers (fun _ => True) (fun ns => ∀ t, .tag t ∈ ns → slash ∉ t.nameText)
      (m.nodes start ts) := by
  induction ts generalizing start with
  | nil => exact fun t mem => absurd mem List.not_mem_nil
  | cons first ts ih =>
    refine (m.node?_name start first).bind fun node named => (ih _).bind fun ns later t mem => ?_
    rcases List.mem_append.mp mem with first | mem
    · exact named t (Option.mem_toList.mp first)
    · exact later t mem

theorem slash_not_mem_name {d : Delimiters} {src : Bytes} {doc : Document}
    (h : Document.parse d src = .ok doc) {t : Tag} (mem : .tag t ∈ doc.children) :
    slash ∉ t.nameText := by
  obtain ⟨-, m, -, nodes⟩ := Document.parse_ok h
  have named := MaskedSource.nodes_names ⟨src, m⟩ 0 (Markup.tokens m.text)
  rw [nodes] at named
  exact named t mem

end Reading

section Settings

theorem not_mem_default {b : UInt8} {s t : Bytes} (hs : b ∉ s) (ht : b ∉ t) :
    b ∉ if t.isEmpty then s else t := by
  split
  · exact hs
  · exact ht

/-- The names in a configuration hold no `<`. -/
structure Config.Plain (c : Config) : Prop where
  rootRef : lt ∉ c.rootRef
  document : lt ∉ c.document
  elementPrefix : lt ∉ c.elementPrefix
  viewModel : lt ∉ c.viewModel

theorem lt_not_mem_of_optional {field given : Bytes} (h : Problem.ofOptional field given = []) :
    lt ∉ given := by
  unfold Problem.ofOptional at h
  split at h
  · rename_i fine
    rcases Bool.or_eq_true_iff.mp fine with empty | identifier
    · rw [List.isEmpty_iff.mp empty]
      exact List.not_mem_nil
    · exact lt_not_mem_identifier identifier
  · cases h

theorem lt_not_mem_of_required {field given : Bytes} (h : Problem.ofRequired field given = []) :
    lt ∉ given := by
  unfold Problem.ofRequired at h
  split at h
  · cases h
  · exact lt_not_mem_of_optional h

theorem Config.plain_of_problems {c : Config} (h : c.problems = []) : c.Plain := by
  simp only [Config.problems, List.append_eq_nil_iff] at h
  obtain ⟨⟨⟨⟨⟨⟨⟨⟨⟨-, -⟩, -⟩, rootRef⟩, document⟩, elementPrefix⟩, -⟩, -⟩, viewModel⟩, -⟩ := h
  exact ⟨lt_not_mem_of_required rootRef, lt_not_mem_of_required document,
    lt_not_mem_of_optional elementPrefix, lt_not_mem_of_optional viewModel⟩

namespace Pipeline
variable {c : Config} {p : Pipeline}

theorem config_eq (h : ofConfig c = .ok p) : p.config = c ∧ c.problems = [] := by
  obtain ⟨_, valid, h⟩ := exists_of_bind_ok h
  have fine : c.problems = [] := by
    by_contra some
    simp [Config.validate, some] at valid
  refine ⟨?_, fine⟩
  split at h
  · rename_i resolved
    cases h
    obtain ⟨_, -, resolved⟩ := exists_of_bind_ok resolved
    obtain ⟨_, -, resolved⟩ := exists_of_bind_ok resolved
    obtain ⟨_, -, resolved⟩ := exists_of_bind_ok resolved
    obtain ⟨_, -, resolved⟩ := exists_of_bind_ok resolved
    cases resolved
    rfl
  · cases h

theorem named_pageData (plain : p.config.Plain) (path code : Bytes) :
    (p.pageData path code).withDefaults.Named := by
  have viewModel := not_mem_default (Page.lt_not_mem_viewModelName path) plain.viewModel
  exact ⟨not_mem_default (by decide) viewModel, not_mem_default (by decide) plain.rootRef,
    not_mem_default (by decide) plain.document⟩

theorem parse_of_intents {src : Bytes} {content : Container Intent}
    (h : p.intents src = .ok content) :
    ∃ doc, Document.parse p.delimiters src = .ok doc ∧
      doc.compile p.compileOptions = .ok content := by
  obtain ⟨doc, parsed, compiled⟩ := exists_of_bind_ok h
  refine ⟨doc, parsed, ?_⟩
  split at compiled
  · cases compiled
    assumption
  · cases compiled

theorem render_of_codeOf {content : Container Intent} {code : Bytes}
    (h : p.codeOf content = .ok code) :
    p.exporter.render (.container content) = .ok code := by
  rw [codeOf] at h
  split at h
  · cases h
    assumption
  · cases h

theorem file_code {path src : Bytes} {built : Built} (h : p.file path src .code = .ok built) :
    ∃ doc c code, Document.parse p.delimiters src = .ok doc ∧ doc.compile p.compileOptions = .ok c ∧
      p.exporter.render (.container c) = .ok code ∧ built.content = p.wrap path code := by
  obtain ⟨c, intents, h⟩ := exists_of_bind_ok h
  obtain ⟨doc, parsed, compiled⟩ := parse_of_intents intents
  obtain ⟨code, exported, h⟩ := exists_of_bind_ok h
  cases h
  exact ⟨doc, c, code, parsed, compiled, render_of_codeOf exported, rfl⟩

/-- Exported code holds what the code and the handlers of a template hold, and its names without
code. -/
theorem avoids_render {sub : Bytes} (broken : sub.Broken) (plain : p.config.Plain) {doc : Document}
    {content : Container Intent} {code : Bytes}
    (compiled : doc.compile p.compileOptions = .ok content)
    (rendered : p.exporter.render (.container content) = .ok code)
    (quiet : ∀ n ∈ doc.children, n.Quiet sub)
    (static : ∀ n ∈ doc.children, ∀ text, n.plainName? = some text → Avoids text sub) :
    Avoids code sub := by
  have lines : p.exporter.render (.container content) = .ok (p.exporter.lines
      (translate p.exporter.root [] (labelled p.compileOptions [] doc.children))).trim :=
    doc.render_lines p.target p.config.document p.text compiled
  rw [rendered, Except.ok.injEq] at lines
  rw [lines]
  have refs : ∀ s, lt ∉ s → lt ∉ p.compileOptions.ref s := by
    intro s absent
    show lt ∉ p.target.ref s
    cases p.target <;> simp +decide [Target.ref, absent]
  have labels := lt_not_mem_labelled plain.elementPrefix refs [] doc.children
  refine Avoids.inside (avoids_lines broken ?_ ?_) (isInfix_trim _)
  · exact not_mem_default (by decide) plain.document
  exact quiet_translate (not_mem_default (by decide) plain.rootRef) (by simp)
    (fun n mem => (labels n mem).2) (fun n mem => quiet n.1 (labels n mem).1)
    (fun n mem => static n.1 (labels n mem).1) broken.ne_nil

theorem avoids_code {sub : Bytes} (broken : sub.Broken) (plain : p.config.Plain) {doc : Document}
    {content : Container Intent} {code : Bytes}
    (compiled : doc.compile p.compileOptions = .ok content)
    (rendered : p.exporter.render (.container content) = .ok code)
    (quiet : ∀ n ∈ doc.children, n.Quiet sub)
    (static : ∀ t, .tag t ∈ doc.children → Avoids t.nameText sub) : Avoids code sub := by
  refine avoids_render broken plain compiled rendered quiet fun n mem text named => ?_
  cases n with
  | tag t =>
    rw [Node.plainName?] at named
    split at named
    · cases named
    · cases named
      exact static t mem
  | _ => cases named

/-- A page as laid out ends in its last tag and a line feed. -/
theorem wrap_render {path code : Bytes} {items : List PageItem} (laidOut : p.config.minify = false)
    (page : Page.wrap p.kind p.target (p.pageData path code) = .html items)
    (last : items = items.dropLast ++ [.markup (utf8 "</html>")]) :
    p.wrap path code = items.flatMap PageItem.render ++ [lf] := by
  have ends : (items.flatMap PageItem.render).getLast? = some gt := by
    rw [last, List.flatMap_append, List.flatMap_singleton]
    exact List.getLast?_append_of_ne_nil _ (by decide)
  have other : (items.flatMap PageItem.render).getLast? ≠ some lf := by
    rw [ends]
    decide
  simp only [wrap, page, laidOut, Bool.false_eq_true, if_false, Page.render, endLine, if_neg other]

theorem closings_skeleton {kind : PageKind} (html : kind.isHtml = true) :
    (kind.skeleton.map (utf8 "</script").occurrences).sum =
      if kind = .moduleScript then 1 else 2 := by
  cases kind with
  | bare | viewModel => cases html
  | iife =>
    rw [PageKind.skeleton, PageData.iifeLoader, utf8_append]
    repeat rw [utf8_ofList]
    decide +kernel
  | umd =>
    rw [PageKind.skeleton, PageData.umdLoader, utf8_append]
    repeat rw [utf8_ofList]
    decide +kernel
  | moduleScript => decide +kernel

/-- In a page for a template whose code and handlers hold no `</`, every `</` stands in the markup
of the page, which is the skeleton of its kind. So `</script` occurs as often as in the skeleton:
twice, or once in a page that runs a module. -/
theorem file_closings (valid : ofConfig c = .ok p) (html : p.kind.isHtml = true)
    (laidOut : c.minify = false) {path src : Bytes} {doc : Document} {built : Built}
    (read : Document.parse p.delimiters src = .ok doc)
    (quiet : ∀ n ∈ doc.children, n.Quiet (utf8 "</"))
    (builds : p.file path src .code = .ok built) :
    ∃ items : List PageItem, built.content = items.flatMap PageItem.render ++ [lf] ∧
      items.filterMap PageItem.markup? = p.kind.skeleton ∧
      (∀ before after, built.content = before ++ utf8 "</" ++ after →
        ∃ front text back u v, items = front ++ .markup text :: back ∧
          text = u ++ utf8 "</" ++ v ∧ before = front.flatMap PageItem.render ++ u) ∧
      (utf8 "</script").occurrences built.content =
        (p.kind.skeleton.map (utf8 "</script").occurrences).sum ∧
      (utf8 "</script").occurrences built.content = if p.kind = .moduleScript then 1 else 2 := by
  obtain ⟨rfl, fine⟩ := config_eq valid
  have plain := Config.plain_of_problems fine
  have broken : (utf8 "</").Broken := List.mem_cons_self
  obtain ⟨doc', content, code, parsed, compiled, rendered, wrapped⟩ := file_code builds
  cases read.symm.trans parsed
  have static (t : Tag) (mem : .tag t ∈ doc.children) : Avoids t.nameText (utf8 "</") :=
    fun occurs => slash_not_mem_name read mem (occurs.subset (by decide))
  have avoids := avoids_code broken plain compiled rendered quiet static
  obtain ⟨items, page, framed, skeleton, last⟩ :=
    wrap_framed broken html p.target (named_pageData plain path code) avoids
  rw [wrapped, wrap_render laidOut page last, ← skeleton]
  -- wherever `</script` occurs, `</` does, so what frames the one frames the other
  have longer := framed.longer (by decide : utf8 "</" <:+: utf8 "</script")
  have counted := longer.occurrences_eq (by decide +kernel) (by decide +kernel)
  refine ⟨items, rfl, rfl, fun before after whole => ?_, counted, ?_⟩
  · exact framed.located (by decide +kernel) (by decide +kernel) whole
  · rw [counted, skeleton]
    exact closings_skeleton html

def mountConfig : Config := { template := utf8 "umd", rootId := utf8 "</script>" }

def mountPipeline : Pipeline := ⟨mountConfig, .brace, .ruby, .node, .umd⟩

/-- A template that shows an end tag, as the page's own root id does. -/
def shownEndTag : Bytes := utf8 "<p title=\"</script>\" onclick=\"go\">&#60;/script>\x7b=x\x7d</p>"

def shownEndTagDocument : Document where
  children := [
    .tag ⟨some [.raw (utf8 "p")],
      some [some ⟨some [.raw (utf8 "title")], some ⟨some .double, [.raw (utf8 "</script>")]⟩,
          ⟨3, 1, 4⟩⟩,
        some ⟨some [.raw (utf8 "onclick")], some ⟨some .double, [.raw (utf8 "go")]⟩, ⟨21, 1, 22⟩⟩],
      false, false, ⟨0, 1, 1⟩⟩,
    .text [.raw (utf8 "</script>"), .code ⟨.expression, utf8 "x", ⟨47, 1, 48⟩⟩],
    .tag ⟨some [.raw (utf8 "p")], none, true, false, ⟨51, 1, 52⟩⟩]

theorem file_closings_shown :
    ofConfig mountConfig = .ok mountPipeline ∧ ∃ built,
      mountPipeline.file (utf8 "a.html") shownEndTag .code = .ok built ∧
      (utf8 "</script").occurrences built.content = 2 := by
  have read : Document.parse .brace shownEndTag = .ok shownEndTagDocument := by decide +kernel
  have quiet : ∀ n ∈ shownEndTagDocument.children, n.Quiet (utf8 "</") := by
    simp only [shownEndTagDocument, List.forall_mem_cons]
    refine ⟨⟨by simp [Node.parts, Node.attributes], ?_⟩, ⟨?_, by simp [Node.attributes]⟩,
      ⟨by simp [Node.parts, Node.attributes], by simp [Node.attributes]⟩, by simp⟩
    · refine List.forall_mem_cons.mpr ⟨fun event => absurd event (by decide), ?_⟩
      refine List.forall_mem_cons.mpr ⟨fun _ v same => ?_, fun a mem => absurd mem List.not_mem_nil⟩
      cases same
      decide +kernel
    · intro block mem
      cases (by simpa [Node.parts] using mem : block = ⟨.expression, utf8 "x", ⟨47, 1, 48⟩⟩)
      decide
  have accepted :
      (mountPipeline.file (utf8 "a.html") shownEndTag .code).toOption.isSome = true := by
    decide +kernel
  obtain ⟨built, builds⟩ : ∃ built,
      mountPipeline.file (utf8 "a.html") shownEndTag .code = .ok built := by
    cases h : mountPipeline.file (utf8 "a.html") shownEndTag .code with
    | ok built => exact ⟨built, rfl⟩
    | error e => rw [h] at accepted; cases accepted
  obtain ⟨items, -, -, -, -, counted⟩ :=
    file_closings (c := mountConfig) (p := mountPipeline) rfl rfl rfl read quiet builds
  exact ⟨rfl, built, builds, counted⟩

end Pipeline

end Settings

end DomTemplate
