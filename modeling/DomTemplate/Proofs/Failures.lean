import DomTemplate.Pipeline
import DomTemplate.Proofs.Balance
import DomTemplate.Proofs.OnePass
import DomTemplate.Proofs.Reading

/-! How building a template fails. A document that was read from a source is compiled, or
refused with an error that points at a byte of the source: every error names the tag or the
attribute that it is about, and those have their places. What is compiled is exported
without fail. So a build gives a file or points at its source, unless a character reference
has written a mark. -/

namespace DomTemplate
open Ascii

namespace Compile

/-- A step refuses what it compiles at a byte of the source only. -/
def Pinned {α : Type} (src : Bytes) (m : Compile α) : Prop :=
  ∀ target e, alone m target = .error e → e.Located src

section
variable {α β : Type} {src : Bytes}

theorem pinned_pure (a : α) : Pinned src (pure a : Compile α) := nofun

theorem pinned_fail {e : TemplateError} (h : e.Located src) : Pinned src (fail e : Compile α) := by
  rintro target e' ⟨⟩
  exact h

theorem pinned_bind {m : Compile α} {k : α → Compile β} (transparent : Transparent m)
    (first : Pinned src m) (next : ∀ a, Pinned src (k a)) : Pinned src (m >>= k) := by
  intro target e failed
  rw [alone_bind transparent] at failed
  cases result : alone m target with
  | error e' =>
    rw [result] at failed
    cases failed
    exact first target e result
  | ok a =>
    rw [result] at failed
    exact next a target e failed

theorem pinned_inScope {compile : α → Compile Intent} {parts : List α}
    (transparent : ∀ p, Transparent (compile p)) (each : ∀ p ∈ parts, Pinned src (compile p)) :
    Pinned src (inScope parts compile) := by
  intro target e failed
  rw [alone_inScope transparent] at failed
  induction parts with
  | nil => cases failed
  | cons p parts ih =>
    rw [List.forall_mem_cons] at each
    rw [List.mapM_cons] at failed
    cases first : alone (compile p) target with
    | error e' =>
      rw [first] at failed
      cases failed
      exact each.1 target e first
    | ok n =>
      rw [first] at failed
      cases rest : parts.mapM fun p => alone (compile p) target with
      | error e' =>
        rw [rest] at failed ih
        cases failed
        exact ih each.2 rfl
      | ok ns => rw [rest] at failed; cases failed

end

variable {src : Bytes}

theorem pinned_literalPart {refusal : TemplateError} (located : refusal.Located src) {p : Part}
    (read : p.isRead = true) : Pinned src (literalPart refusal p) := by
  cases p with
  | absent | misplaced kind => cases read
  | raw value => exact pinned_pure _
  | code block =>
    rw [literalPart]
    split
    · exact pinned_fail located
    · exact pinned_pure _

theorem pinned_handler {a : Attribute} (place : a.pos.IsIn src) : Pinned src (handler a) := by
  have refused (fault : AttributeFault) :
      (TemplateError.invalidAttribute a.pos a.source fault).Located src := .of_place place rfl
  unfold handler
  split
  · exact pinned_fail (refused _)
  split
  · exact pinned_fail (refused _)
  · refine pinned_inScope (transparent_handlerPart a) fun p _ => ?_
    cases p with
    | raw value => exact pinned_pure _
    | code block =>
      rw [handlerPart]
      split
      · exact pinned_fail (refused _)
      · exact pinned_pure _
    | absent | misplaced kind => exact pinned_fail (.of_place place rfl)
  · exact pinned_fail (refused _)

theorem isRead_eventName? {parts event : List Part} (h : eventName? parts = some event)
    (read : ∀ p ∈ parts, p.isRead = true) : ∀ p ∈ event, p.isRead = true := by
  unfold eventName? at h
  split at h
  · obtain ⟨name, -, rfl⟩ := Option.map_eq_some_iff.mp h
    rw [List.forall_mem_cons] at read ⊢
    exact ⟨rfl, read.2⟩
  · cases h

theorem pinned_attributeOf {a : Attribute} (read : a.IsRead src) {parts : List Part}
    (named : a.name = some parts) (target : Bytes) : Pinned src (attributeOf a parts target) := by
  have refused (fault : AttributeFault) :
      (TemplateError.invalidAttribute a.pos a.source fault).Located src := .of_place read.place rfl
  have pieces : ∀ p ∈ parts, p.isRead = true := by simpa [named] using read.name
  have name (parts : List Part) (h : ∀ p ∈ parts, p.isRead = true) :
      Pinned src (inScope parts (namePart a)) :=
    pinned_inScope (transparent_namePart a) fun p mem => pinned_literalPart (refused _) (h p mem)
  unfold attributeOf
  cases named : eventName? parts with
  | some event =>
    simp only [attrName_of_event named]
    refine pinned_bind (transparent_inScope (transparent_namePart a) _)
      (name event (isRead_eventName? named pieces)) fun n => ?_
    split
    · exact pinned_fail (refused _)
    · exact pinned_bind (transparent_handler a) (pinned_handler read.place) fun _ => pinned_pure _
  | none =>
    simp only [attrName_of_plain named]
    refine pinned_bind (transparent_inScope (transparent_namePart a) _) (name _ pieces) fun n => ?_
    cases value : a.value with
    | none => exact pinned_pure _
    | some v =>
      refine pinned_bind (transparent_inScope (transparent_valuePart a) _) ?_ fun _ => pinned_pure _
      exact pinned_inScope (transparent_valuePart a) fun p mem =>
        pinned_literalPart (refused _) (read.value v value p mem)

theorem pinned_attr {a : Attribute} (read : a.IsRead src) : Pinned src (attr (some a)) := by
  rw [attr]
  cases named : a.name with
  | none => exact pinned_fail (.of_place read.place rfl)
  | some parts =>
    cases parts with
    | nil => exact pinned_fail (.of_place read.place rfl)
    | cons p parts =>
      intro target e failed
      simp only [namedAttribute_eq, alone_target] at failed
      exact pinned_attributeOf read named target target e failed

theorem pinned_tagHead {t : Tag} (read : t.IsRead src) {name : List Part}
    (named : t.name = some name) (ref : Bytes) : Pinned src (tagHead t name ref) := by
  have pieces : ∀ p ∈ name, p.isRead = true := by simpa [named] using read.name
  refine pinned_bind (transparent_inScope (transparent_literalPart _) _) ?_ fun tag => ?_
  · exact pinned_inScope (transparent_literalPart _) fun p mem =>
      pinned_literalPart (.of_place read.place rfl) (pieces p mem)
  · refine pinned_bind (transparent_tagSetup t ref) ?_ fun _ => pinned_pure _
    have attributes := read.attrs
    unfold tagSetup
    cases written : t.attrs with
    | none => exact pinned_pure _
    | some attrs =>
      refine pinned_inScope transparent_attr fun a mem => ?_
      obtain ⟨b, rfl, known⟩ := attributes a (by simpa [written] using mem)
      exact pinned_attr known

theorem pinned_leaf {options : CompileOptions} {n : Node} (plain : ∀ t, n ≠ .tag t)
    (read : n.IsRead src) : Pinned src (node options n) := by
  cases n with
  | tag t => exact absurd rfl (plain t)
  | absent | code | raw | misplaced => cases read
  | comment text pos => exact pinned_pure _
  | doctype text pos => exact pinned_fail (.of_place read rfl)
  | text parts =>
    intro target e failed
    have compiles := isOk_text parts target
    have placed : parts.all (!·.isMisplaced) = true := by
      refine List.all_eq_true.mpr fun p mem => ?_
      cases p with
      | misplaced kind => cases read _ mem
      | _ => rfl
    rw [node] at failed
    rw [failed, placed] at compiles
    cases compiles

/-- An open element whose tag was read from the source. -/
def OpenElement.IsRead (src : Bytes) (e : OpenElement) : Prop := e.tag ≠ [] ∧ e.pos.IsIn src

section
variable {options : CompileOptions} {root : Bytes} {opened : List OpenElement}

theorem place_located {n : Node} {f : Frame} {outer : Scopes} {issued : List Bytes}
    {e : TemplateError} (read : n.IsRead src) (standing : Standing root opened (f :: outer))
    (failed : place options n ⟨f :: outer, issued⟩ = .error e) : e.Located src := by
  by_cases plain : ∀ t, n ≠ .tag t
  · rw [place_leaf plain] at failed
    cases result : alone (node options n) f.target with
    | error e' =>
      rw [result] at failed
      cases failed
      exact pinned_leaf plain read f.target e result
    | ok i => rw [result] at failed; cases failed
  · obtain ⟨t, rfl⟩ : ∃ t, n = .tag t := by simpa using plain
    cases closing : t.closing with
    | true =>
      by_cases same : f.isElement = true ∧ f.tag = t.source
      · cases standing with
        | document target transparent => simp [Frame.isElement, transparent] at same
        | element within =>
          obtain ⟨g, outer, rfl⟩ := within.ne_nil
          rw [place_matching closing same.1 same.2] at failed
          cases failed
      · rw [place_mismatched closing same] at failed
        cases failed
        exact .of_place read.place rfl
    | false =>
      cases named : t.name with
      | none => exact absurd (by simp [Tag.source, named, partsSource]) read.source
      | some name =>
        have nonempty : name ≠ [] := by
          rintro rfl
          exact read.source (by simp [Tag.source, named, partsSource])
        rw [place_opening f outer closing named nonempty] at failed
        cases result : alone (tagHead t name (nextRef options issued name))
            (nextRef options issued name) with
        | error e' =>
          rw [result] at failed
          cases failed
          exact pinned_tagHead read named _ _ e result
        | ok head => rw [result] at failed; cases failed

/-- After a child the scopes stand as before, with the tags of the source open in them. -/
theorem Placed.standing {n : Node} {s s' : CompileState} (placed : Placed options n s s')
    (read : n.IsRead src) (standing : Standing root opened s.scopes)
    (known : ∀ e ∈ opened, e.IsRead src) :
    ∃ opened', Standing root opened' s'.scopes ∧ ∀ e ∈ opened', e.IsRead src := by
  cases placed with
  | leaf plain result => exact ⟨opened, standing.append _, known⟩
  | void opening named nonempty void fresh result => exact ⟨opened, standing.append _, known⟩
  | opened opening named nonempty void fresh result =>
    exact ⟨_, .element standing, List.forall_mem_cons.mpr ⟨⟨read.source, read.place⟩, known⟩⟩
  | closed closing element same =>
    exact ⟨_, (standing.close element).append _, fun e mem => known e (List.mem_of_mem_tail mem)⟩

theorem finish_located {s : CompileState} {e : TemplateError}
    (standing : Standing root opened s.scopes) (known : ∀ e ∈ opened, e.IsRead src)
    (failed : finish s = .error e) : e.Located src := by
  have verdict := finish_balance standing fun e mem => (known e mem).1
  rw [failed] at verdict
  cases opened with
  | nil => cases verdict
  | cons o opened =>
    cases verdict
    exact .of_place (known o List.mem_cons_self).2 rfl

/-- The scopes stand as the tags so far have left them, whatever the next child is. -/
theorem each_located {ns : List Node} {s : CompileState} {e : TemplateError}
    (read : ∀ n ∈ ns, n.IsRead src) (standing : Standing root opened s.scopes)
    (known : ∀ e ∈ opened, e.IsRead src)
    (failed : (each (node options) ns s).bind (fun r => finish r.2) = .error e) :
    e.Located src := by
  induction ns generalizing s opened with
  | nil => exact finish_located standing known failed
  | cons n ns ih =>
    rw [List.forall_mem_cons] at read
    obtain ⟨scopes, issued⟩ := s
    obtain ⟨f, outer, rfl⟩ := standing.ne_nil
    rw [each_cons] at failed
    simp only [bind, StateT.bind] at failed
    cases first : place options n ⟨f :: outer, issued⟩ with
    | error e' =>
      rw [first] at failed
      cases failed
      exact place_located read.1 standing first
    | ok result =>
      obtain ⟨⟨⟩, s⟩ := result
      rw [first] at failed
      obtain ⟨opened', standing', known'⟩ := (placed_of_place first).standing read.1 standing known
      exact ih read.2 standing' known' failed

end
end Compile

/-- A document that was read from a source is refused at a byte of it. -/
theorem Document.compile_located {options : CompileOptions} {doc : Document} {src : Bytes}
    {e : TemplateError} (read : ∀ n ∈ doc.children, n.IsRead src)
    (failed : doc.compile options = .error e) : e.Located src := by
  rw [Compile.compile_eq] at failed
  exact Compile.each_located read (Compile.standing_initial options) (by simp) failed

theorem mem_of_ofChoice {field given : Bytes} {choices : List Bytes}
    (h : Problem.ofChoice field choices given = []) : given ∈ choices := by
  by_contra other
  simp [Problem.ofChoice, other] at h

theorem named_ok {α : Type} (setting : Setting) {ofName? : Bytes → Option α} {name : Bytes}
    (h : (ofName? name).isSome = true) : ∃ a, named setting ofName? name = .ok a := by
  obtain ⟨a, found⟩ := Option.isSome_iff_exists.mp h
  exact ⟨a, by rw [named, found]⟩

/-- The names in a configuration without problems all mean something. -/
theorem Pipeline.ofConfig_ok {c : Config} (valid : c.validate = .ok ()) :
    ∃ p, Pipeline.ofConfig c = .ok p := by
  have none : c.problems = [] := by
    by_contra some
    simp [Config.validate, some] at valid
  have choices := none
  simp only [Config.problems, List.append_eq_nil_iff] at choices
  obtain ⟨⟨⟨⟨⟨⟨⟨⟨⟨target, template⟩, -⟩, -⟩, -⟩, -⟩, text⟩, delimiters⟩, -⟩, -⟩ := choices
  have delimiters : (Delimiters.ofName? c.delimiters).isSome = true := by
    have known : ∀ name ∈ [utf8 "brace", utf8 "erb"], (Delimiters.ofName? name).isSome = true := by
      decide
    exact known _ (mem_of_ofChoice delimiters)
  have target : (Target.ofName? c.target).isSome = true := by
    have known : ∀ name ∈ [utf8 "ruby", utf8 "js"], (Target.ofName? name).isSome = true := by decide
    exact known _ (mem_of_ofChoice target)
  have text : (TextMode.ofName? c.text).isSome = true := by
    have known : ∀ name ∈ [utf8 "node", utf8 "accumulate"], (TextMode.ofName? name).isSome = true := by
      decide
    exact known _ (mem_of_ofChoice text)
  have kind : (PageKind.ofName? c.template).isSome = true := by
    have known : ∀ name ∈ PageKind.all.map PageKind.name, (PageKind.ofName? name).isSome = true := by
      decide
    exact known _ (mem_of_ofChoice template)
  obtain ⟨d, delimiters⟩ := named_ok .delimiters delimiters
  obtain ⟨t, target⟩ := named_ok .target target
  obtain ⟨x, text⟩ := named_ok .textMode text
  obtain ⟨k, kind⟩ := named_ok .pageKind kind
  refine ⟨⟨c, d, t, x, k⟩, ?_⟩
  simp [Pipeline.ofConfig, Pipeline.ofNames, valid, Delimiters.named, Target.named, TextMode.named,
    PageKind.named, delimiters, target, text, kind, bind, Except.bind, pure, Except.pure]

namespace Pipeline
variable {p : Pipeline} {src : Bytes} {f : Failure}

/-- What is compiled is exported. -/
theorem codeOf_ok {c : Container Intent} (h : p.intents src = .ok c) :
    ∃ code, p.codeOf c = .ok code := by
  rw [intents] at h
  obtain ⟨doc, -, h⟩ := exists_of_bind_ok h
  cases compiled : doc.compile p.compileOptions with
  | error e => rw [compiled] at h; cases h
  | ok c' =>
    rw [compiled] at h
    cases h
    have exported := (Document.ops_compile compiled).1
    have root : p.exporter.root = p.compileOptions.mount := rfl
    rw [← root] at exported
    rw [codeOf, Exporter.render, exported]
    exact ⟨_, rfl⟩

theorem intents_of_body (failed : p.body src = .error f) : p.intents src = .error f := by
  cases result : p.intents src with
  | error f' => simpa [body, result, bind, Except.bind] using failed
  | ok c =>
    obtain ⟨code, exported⟩ := codeOf_ok result
    simp [body, result, bind, Except.bind, exported] at failed

theorem intents_of_file {path : Bytes} {emit : Emit} (failed : p.file path src emit = .error f) :
    p.intents src = .error f := by
  cases result : p.intents src with
  | error f' => simpa [file, result, bind, Except.bind] using failed
  | ok c =>
    obtain ⟨code, exported⟩ := codeOf_ok result
    cases emit <;>
      simp [file, result, bind, Except.bind, exported, pure, Except.pure] at failed

theorem intents_failure (small : src.length < Bytes.signedLimit) (failed : p.intents src = .error f) :
    f.Located src ∨ (p.delimiters.namesMark src = true ∧ f.isOverMark = true) := by
  have answers := Document.parse_answers p.delimiters small
  rw [intents] at failed
  cases parsed : Document.parse p.delimiters src with
  | error f' =>
    rw [parsed] at failed answers
    cases failed
    exact answers
  | ok doc =>
    rw [parsed] at failed answers
    cases compiled : doc.compile p.compileOptions with
    | ok c => simp [compiled, bind, Except.bind, pure, Except.pure] at failed
    | error e =>
      have same : f = .refused e := by
        simpa [compiled, bind, Except.bind, throw, throwThe, MonadExceptOf.throw] using failed.symm
      exact .inl ⟨e, same, Document.compile_located answers compiled⟩

theorem not_located_of_isOverMark (astray : f.isOverMark = true) : ¬f.Located src := by
  rintro ⟨e, rfl, pos, position, -⟩
  cases e with
  | malformedMark text => cases position
  | _ => cases astray

/-- A pipeline of a valid configuration that fails does so at a byte of the source, on one of
its lines, unless it fails over a mark that no block has. That takes a character reference to
the character that opens marks. Sources are texts in memory, whose lengths have a signed
64-bit form. -/
theorem failures_placed (c : Config) (valid : c.validate = .ok ()) :
    ∃ p, Pipeline.ofConfig c = .ok p ∧
      ∀ (path src : Bytes) (emit : Emit) (f : Failure), src.length < Bytes.signedLimit →
        (p.intents src = .error f ∨ p.body src = .error f ∨ p.file path src emit = .error f) →
        (f.isOverMark = false ↔
          ∃ e pos, f = .refused e ∧ e.position? = some pos ∧ pos.IsIn src ∧
            1 ≤ pos.line ∧ pos.line ≤ (Bytes.splitOn lf src).length) ∧
        (f.isOverMark = true → p.delimiters.namesMark src = true) := by
  obtain ⟨p, resolved⟩ := ofConfig_ok valid
  refine ⟨p, resolved, fun path src emit f small failed => ?_⟩
  have failed : p.intents src = .error f := by
    rcases failed with failed | failed | failed
    · exact failed
    · exact intents_of_body failed
    · exact intents_of_file failed
  rcases intents_failure small failed with located | ⟨names, astray⟩
  · have other : f.isOverMark = false := by
      by_contra astray
      exact not_located_of_isOverMark (by simpa using astray) located
    refine ⟨⟨fun _ => ?_, fun _ => other⟩, fun astray => absurd astray (by simp [other])⟩
    obtain ⟨e, rfl, pos, position, inside⟩ := located
    exact ⟨e, pos, rfl, position, inside, inside.line⟩
  · refine ⟨⟨fun other => absurd astray (by simp [other]), ?_⟩, fun _ => names⟩
    rintro ⟨e, pos, rfl, position, inside, -⟩
    exact absurd ⟨e, rfl, pos, position, inside⟩ (not_located_of_isOverMark astray)

def bareConfig : Config := { template := utf8 "raw" }

def barePipeline : Pipeline := ⟨bareConfig, .brace, .ruby, .node, .bare⟩

theorem ofConfig_bareConfig : Pipeline.ofConfig bareConfig = .ok barePipeline := rfl

/-- A list whose second line closes an item that is not open. The reference in it is to the
character that closes marks. -/
def strayItem : Bytes := utf8 "<ul>\n&#xE001;\x7b=x\x7d</li>"

theorem failures_placed_stray_item :
    bareConfig.validate = .ok () ∧ strayItem.length < Bytes.signedLimit ∧
      ∃ p e pos, Pipeline.ofConfig bareConfig = .ok p ∧ p.body strayItem = .error (.refused e) ∧
        e.position? = some pos ∧ 1 ≤ pos.line ∧ pos.line ≤ (Bytes.splitOn lf strayItem).length := by
  have valid : bareConfig.validate = .ok () := by decide +kernel
  have small : strayItem.length < Bytes.signedLimit := by decide +kernel
  have failed : barePipeline.body strayItem =
      .error (.refused (.unbalancedTag ⟨17, 2, 13⟩ (utf8 "li") (utf8 "ul") .stray)) := by
    decide +kernel
  obtain ⟨p, resolved, placed⟩ := failures_placed bareConfig valid
  cases ofConfig_bareConfig.symm.trans resolved
  obtain ⟨e, pos, same, position, -, lines⟩ :=
    (placed [] strayItem .code _ small (.inr (.inl failed))).1.mp rfl
  exact ⟨valid, small, barePipeline, e, pos, rfl, failed.trans (congrArg _ same), position, lines⟩

/-- References to the characters of a mark with a negative number lead to a crash. -/
theorem intents_negative_mark :
    Pipeline.ofConfig bareConfig = .ok barePipeline ∧
      barePipeline.intents (utf8 "&#xE000;-1&#xE001;") = .error (.crashed (.indexOutOfRange (-1))) := by
  refine ⟨rfl, ?_⟩
  have read : Document.parse .brace (utf8 "&#xE000;-1&#xE001;") =
      .error (.crashed (.indexOutOfRange (-1))) := by decide +kernel
  simp only [intents, barePipeline, read]
  rfl

end Pipeline

end DomTemplate
