import DomTemplate.Proofs.Literals
import DomTemplate.Proofs.Occurrence
import DomTemplate.Proofs.Translation

/-! Exported code inside a script element. Text of a template reaches it through literals, whose
escapes break up what would end the element or open a comment in it; names of elements are made
of letters, digits and underscores. What is left is the template's own code. -/

namespace DomTemplate
open Ascii Bytes

/-- What the escapes of every literal break up. -/
def Bytes.Broken (sub : Bytes) : Prop := sub ∈ Target.scriptRules.map Rule.pattern

namespace Bytes.Broken
variable {sub : Bytes}

theorem cases (h : sub.Broken) : sub = [lt, slash] ∨ sub = [lt, bang, dash, dash] := by
  have listed : Target.scriptRules.map Rule.pattern = [[lt, slash], [lt, bang, dash, dash]] := by
    decide
  simpa [Broken, listed] using h

theorem ne_nil (h : sub.Broken) : sub ≠ [] := by
  rcases h.cases with rfl | rfl <;> decide

theorem head (h : sub.Broken) : sub.head? = some lt := by
  rcases h.cases with rfl | rfl <;> rfl

theorem not_mem (h : sub.Broken) {b : UInt8} (other : b ∉ [lt, slash, bang, dash]) : b ∉ sub := by
  rcases h.cases with rfl | rfl <;> simp_all

theorem blunts (h : sub.Broken) (q : Quoting) : ∀ rule ∈ q.rules, rule.Blunts sub := by
  rcases h.cases with rfl | rfl <;> cases q <;> decide +kernel

theorem pattern (h : sub.Broken) {q : Quoting} (double : q.isDouble = true) :
    ∃ rule ∈ q.rules, rule.pattern = sub := by
  rcases h.cases with rfl | rfl <;> cases q <;> revert double <;> decide

theorem sealed_of_not_mem (h : sub.Broken) {s : Bytes} (absent : lt ∉ s) : Sealed s sub :=
  Bytes.sealed_of_not_mem h.head absent

theorem concat (h : sub.Broken) {s : Bytes} {b : UInt8} (avoids : Avoids s sub)
    (other : b ∉ [lt, slash, bang, dash]) : Sealed (s ++ [b]) sub :=
  avoids.concat (h.not_mem other) h.ne_nil

end Bytes.Broken

/-- Fragments as they come from a name or a value, whose code avoids `sub`. -/
structure QuietFragments (sub : Bytes) (fs : List Fragment) : Prop where
  merged : fs.IsChain fun f g => f.isCode = true ∨ g.isCode = true
  code : ∀ text, .code text ∈ fs → Avoids text sub

/-- The names of the operation hold no `<`, and the code in it avoids `sub`. -/
def DomOp.Quiet (sub : Bytes) : DomOp → Prop
  | create ref tag =>
    lt ∉ ref ∧ QuietFragments sub tag ∧
      (tag.any Fragment.isCode = false → Avoids (tag.flatMap Fragment.text) sub)
  | appendChild parent child => lt ∉ parent ∧ lt ∉ child
  | addText target value => lt ∉ target ∧ QuietFragments sub [value]
  | setAttribute target name value =>
    lt ∉ target ∧ QuietFragments sub name ∧ QuietFragments sub value
  | setFlag target name => lt ∉ target ∧ QuietFragments sub name
  | listen target event handler =>
    lt ∉ target ∧ QuietFragments sub event ∧ Avoids handler sub
  | run code => Avoids code sub

section Exported
variable {sub : Bytes} (broken : sub.Broken)
include broken

theorem QuietFragments.avoids {q : Quoting} {fs : List Fragment} (h : QuietFragments sub fs)
    (double : q.isDouble = true) :
    Avoids (fs.flatMap (Target.fragment q.rules [q.opener, lbrace])) sub := by
  have opener : q.opener ∉ [lt, slash, bang, dash] := by cases q <;> decide
  obtain ⟨merged, code⟩ := h
  induction fs with
  | nil => exact avoids_nil broken.ne_nil
  | cons f fs ih =>
    have rest := ih merged.tail fun text mem => code text (List.mem_cons_of_mem _ mem)
    rw [List.flatMap_cons]
    cases f with
    | code text =>
      have opens : Sealed [q.opener, lbrace] sub :=
        broken.sealed_of_not_mem (by cases q <;> decide)
      have avoids := opens.append_avoids (code text List.mem_cons_self) broken.ne_nil
      exact (broken.concat avoids (by decide)).append_avoids rest broken.ne_nil
    | literal text =>
      have avoids : Avoids (Rule.applyAll q.rules text) sub :=
        (Rule.replaced_applyAll q.writes_rules.nonempty text).avoids (broken.blunts q)
          broken.ne_nil (.inl (broken.pattern double))
      cases fs with
      | nil => simpa [Target.fragment] using avoids
      | cons g fs =>
        cases g with
        | literal other => simp [Fragment.isCode] at merged
        | code other =>
          -- the opener of the code that follows ends what the literal may have begun
          have split : Rule.applyAll q.rules text ++
              (Fragment.code other :: fs).flatMap (Target.fragment q.rules [q.opener, lbrace]) =
              Rule.applyAll q.rules text ++ [q.opener] ++ ([lbrace] ++ other ++ [rbrace] ++
                fs.flatMap (Target.fragment q.rules [q.opener, lbrace])) := by
            simp [Target.fragment]
          rw [Target.fragment, split]
          refine (broken.concat avoids opener).append_avoids (rest.inside ?_) broken.ne_nil
          exact ⟨[q.opener], [], by simp [Target.fragment]⟩

theorem sealed_literal (t : Target) {fs : List Fragment} (h : QuietFragments sub fs) :
    Sealed (t.literal fs) sub := by
  have closer : (t.quotingOf fs).closer ∉ [lt, slash, bang, dash] := by
    cases t.quotingOf fs <;> decide
  have opens : Sealed [(t.quotingOf fs).closer] sub :=
    broken.sealed_of_not_mem fun mem => closer (by simp at mem; simp [← mem])
  rw [Target.literal_eq, List.cons_append]
  exact opens.append (broken.concat (h.avoids broken (t.quotingOf_isDouble fs)) closer)
    broken.ne_nil

theorem sealed_static (t : Target) {s : Bytes} (h : Avoids s sub) : Sealed (t.static s) sub := by
  have avoids : Avoids (Rule.applyAll Target.singleQuoteRules s) sub :=
    (Rule.replaced_applyAll (Quoting.writes_rules .rubySingle).nonempty s).avoids
      (broken.blunts .rubySingle) broken.ne_nil (.inr h)
  have opens : Sealed [apostrophe] sub := broken.sealed_of_not_mem (by decide)
  exact opens.append (broken.concat avoids (by decide)) broken.ne_nil

theorem sealed_tagName (e : Exporter) {tag : List Fragment} (quiet : QuietFragments sub tag)
    (static : tag.any Fragment.isCode = false → Avoids (tag.flatMap Fragment.text) sub) :
    Sealed (e.tagName tag) sub := by
  rw [Exporter.tagName]
  split
  · exact sealed_literal broken e.target quiet
  · rename_i plain
    exact sealed_static broken e.target (static (by simpa using plain))

theorem sealed_line {e : Exporter} (document : lt ∉ e.document) {op : DomOp} (h : op.Quiet sub) :
    Sealed (e.statement op ++ [lf]) sub := by
  have plain {s : Bytes} (absent : lt ∉ s) : Sealed s sub := broken.sealed_of_not_mem absent
  have both {a b : Bytes} (ha : Sealed a sub) (hb : Sealed b sub) : Sealed (a ++ b) sub :=
    ha.append hb broken.ne_nil
  have ending : Sealed e.target.terminator sub := plain (by cases e.target <;> decide)
  have line : Sealed [lf] sub := plain (by decide)
  have literal {fs : List Fragment} (quiet : QuietFragments sub fs) :
      Sealed (e.target.literal fs) sub :=
    sealed_literal broken e.target quiet
  -- a statement is made of fixed texts, names without `<` and literals, each of them sealed
  cases op with
  | create ref tag =>
    obtain ⟨name, quiet, static⟩ := h
    refine both (both (both (both (both (both (both ?_ (plain (by decide))) (plain document))
      (plain (by decide))) (sealed_tagName broken e quiet static)) (plain (by decide))) ending) line
    cases e.target with
    | ruby => exact plain name
    | javascript => exact both (plain (by decide)) (plain name)
  | appendChild parent child =>
    exact both (both (both (both (both (plain h.1) (plain (by decide))) (plain h.2))
      (plain (by decide))) ending) line
  | addText target value =>
    refine both ?_ line
    rw [Exporter.statement]
    cases e.text with
    | node =>
      exact both (both (both (both (both (both (plain h.1) (plain (by decide))) (plain document))
        (plain (by decide))) (literal h.2)) (plain (by decide))) ending
    | accumulate =>
      have target := plain h.1
      simp only [Target.accumulateText]
      cases e.target with
      | ruby =>
        exact both (both (both (both target (plain (by decide))) target) (plain (by decide)))
          (sealed_literal broken _ h.2)
      | javascript =>
        exact both (both (both target (plain (by decide))) (sealed_literal broken _ h.2))
          (plain (by decide))
  | setAttribute target name value =>
    exact both (both (both (both (both (both (both (plain h.1) (plain (by decide))) (literal h.2.1))
      (plain (by decide))) (literal h.2.2)) (plain (by decide))) ending) line
  | setFlag target name =>
    exact both (both (both (both (both (both (both (plain h.1) (plain (by decide))) (literal h.2))
      (plain (by decide))) (plain (by decide))) (plain (by decide))) ending) line
  | listen target event handler =>
    have listen := plain (by decide : lt ∉ utf8 ".addEventListener(")
    have before := both (both (both (plain h.1) listen) (literal h.2.1))
      (plain (by decide : lt ∉ utf8 ", "))
    have handled := before.append_avoids h.2.2 broken.ne_nil
    exact both (both (broken.concat (b := 0x29) handled (by decide)) ending) line
  | run code => exact broken.concat h (by decide)

theorem avoids_lines {e : Exporter} (document : lt ∉ e.document) {ops : List DomOp}
    (h : ∀ op ∈ ops, op.Quiet sub) : Avoids (e.lines ops) sub := by
  induction ops with
  | nil => exact avoids_nil broken.ne_nil
  | cons op ops ih =>
    rw [List.forall_mem_cons] at h
    exact (sealed_line broken document h.1).append_avoids (ih h.2) broken.ne_nil

end Exported

theorem text_mergeLiterals (fs : List Fragment) :
    (mergeLiterals fs).flatMap Fragment.text = fs.flatMap Fragment.text := by
  induction fs with
  | nil => rfl
  | cons f fs ih =>
    rw [List.flatMap_cons, ← ih]
    cases f with
    | code text => rfl
    | literal text =>
      rw [mergeLiterals]
      split
      · rename_i other rest merged
        rw [merged]
        simp [Fragment.text]
      · rfl

theorem code_mem_mergeLiterals {fs : List Fragment} {text : Bytes} :
    .code text ∈ mergeLiterals fs ↔ .code text ∈ fs := by
  induction fs with
  | nil => rfl
  | cons f fs ih =>
    rw [List.mem_cons, ← ih]
    cases f with
    | code other => simp [mergeLiterals]
    | literal other =>
      rw [mergeLiterals]
      split
      · rename_i next rest merged
        simp [merged]
      · simp

namespace Part

/-- The literal text of a part. -/
def literalText : Part → Bytes
  | raw value => value
  | _ => []

end Part

namespace Node

/-- The name of an opening tag, if it shows no code. -/
def plainName? : Node → Option Bytes
  | tag t =>
    if t.closing || (t.name.getD []).any Part.isExpression then none
    else some ((t.name.getD []).flatMap Part.literalText)
  | _ => none

/-- The code of a child avoids `sub`, and so do the handlers of its events. -/
structure Quiet (sub : Bytes) (n : Node) : Prop where
  code : ∀ block, .code block ∈ n.parts → Avoids block.source sub
  handler : ∀ a ∈ n.attributes, (eventName? (a.name.getD [])).isSome = true →
    ∀ v, a.value = some v → Avoids v.handlerText sub

instance (sub : Bytes) (n : Node) : Decidable (n.Quiet sub) :=
  decidable_of_iff
    ((∀ block ∈ n.blocks, Avoids block.source sub) ∧ ∀ a ∈ n.attributes,
      (eventName? (a.name.getD [])).isSome = true → ∀ v ∈ a.value, Avoids v.handlerText sub)
    ⟨fun h => ⟨fun block mem => h.1 block (mem_blocks.mpr mem), h.2⟩,
      fun h => ⟨fun block mem => h.code block (mem_blocks.mp mem), h.handler⟩⟩

end Node

section Translated
variable {sub : Bytes}

theorem quiet_namedText {parts : List Part}
    (h : ∀ block, .code block ∈ parts → Avoids block.source sub) :
    QuietFragments sub (namedText parts) := by
  refine ⟨merged_mergeLiterals _, fun text mem => ?_⟩
  obtain ⟨p, here, piece⟩ := List.mem_flatMap.mp (code_mem_mergeLiterals.mp mem)
  cases p with
  | absent | misplaced => cases piece
  | raw value =>
    rw [Part.pieces] at piece
    split at piece <;> simp at piece
  | code block =>
    obtain ⟨kind, source, pos⟩ := block
    have avoids := h _ here
    cases kind with
    | expression =>
      simp only [Part.pieces, List.mem_singleton, Fragment.code.injEq] at piece
      rw [piece]
      exact avoids.inside (isInfix_trim source)
    | statement | comment | other => cases piece

theorem isCode_namedText (parts : List Part) :
    (namedText parts).any Fragment.isCode = parts.any Part.isExpression := by
  have merged (fs : List Fragment) :
      (mergeLiterals fs).any Fragment.isCode = fs.any Fragment.isCode := by
    induction fs with
    | nil => rfl
    | cons f fs ih =>
      rw [List.any_cons, ← ih]
      cases f with
      | code text => rfl
      | literal text =>
        rw [mergeLiterals]
        split
        · rename_i next rest found
          simp [found, Fragment.isCode]
        · rfl
  rw [namedText, merged, List.any_flatMap]
  refine congrArg parts.any (funext fun p => ?_)
  cases p with
  | absent | misplaced => rfl
  | raw value =>
    rw [Part.pieces]
    split <;> rfl
  | code block =>
    obtain ⟨kind, source, pos⟩ := block
    cases kind <;> rfl

/-- A name without code is its literal text. -/
theorem text_namedText {parts : List Part}
    (plain : (namedText parts).any Fragment.isCode = false) :
    (namedText parts).flatMap Fragment.text = parts.flatMap Part.literalText := by
  have codeless : ∀ text, Fragment.code text ∉ parts.flatMap Part.pieces := by
    intro text mem
    have code := List.any_eq_false.mp plain _ (code_mem_mergeLiterals.mpr mem)
    exact code rfl
  rw [namedText, text_mergeLiterals, List.flatMap_assoc]
  refine congrArg List.flatten (List.map_congr_left fun p mem => ?_)
  cases p with
  | absent | misplaced => rfl
  | raw value =>
    rw [Part.pieces]
    split
    · rename_i empty
      rw [List.isEmpty_iff.mp empty]
      rfl
    · simp [Part.literalText, Fragment.text]
  | code block =>
    obtain ⟨kind, source, pos⟩ := block
    cases kind with
    | expression =>
      have here := codeless source.trim (List.mem_flatMap.mpr ⟨_, mem, List.mem_singleton.mpr rfl⟩)
      exact here.elim
    | statement | comment | other => rfl

theorem code_mem_eventName {name event : List Part} (h : eventName? name = some event)
    {block : Code} (mem : .code block ∈ event) : .code block ∈ name := by
  unfold eventName? at h
  split at h
  · obtain ⟨_, -, rfl⟩ := Option.map_eq_some_iff.mp h
    simpa using mem
  · cases h

theorem quiet_setting {a : Attribute} {ref : Bytes} (name : lt ∉ ref)
    (code : ∀ block, .code block ∈ a.name.getD [] ++ a.value.elim [] AttrValue.parts →
      Avoids block.source sub)
    (handler : (eventName? (a.name.getD [])).isSome = true →
      ∀ v, a.value = some v → Avoids v.handlerText sub) (nonempty : sub ≠ []) :
    (a.setting.op ref).Quiet sub := by
  have named := quiet_namedText fun block mem => code block (List.mem_append_left _ mem)
  rw [Attribute.setting]
  split
  · rename_i event found
    refine ⟨name, quiet_namedText fun block mem => ?_, ?_⟩
    · exact code block (List.mem_append_left _ (code_mem_eventName found mem))
    · cases value : a.value with
      | none => exact avoids_nil nonempty
      | some v => exact handler (by rw [found]; rfl) v value
  · split
    · exact ⟨name, named⟩
    · rename_i v value
      refine ⟨name, named, quiet_namedText fun block mem => code block ?_⟩
      rw [value]
      exact List.mem_append_right _ mem

theorem quiet_codeOps {block : Code} {top : Bytes} (target : lt ∉ top)
    (avoids : Avoids block.source sub) : ∀ op ∈ block.ops top, op.Quiet sub := by
  have trimmed := avoids.inside (isInfix_trim block.source)
  intro op mem
  unfold Code.ops at mem
  split at mem
  · rw [List.mem_singleton] at mem
    subst mem
    exact trimmed
  · rw [List.mem_singleton] at mem
    subst mem
    exact ⟨target, .singleton _, by simpa using trimmed⟩
  · cases mem
  · cases mem

theorem quiet_textOps {parts : List Part} {top : Bytes} (target : lt ∉ top)
    (code : ∀ block, .code block ∈ parts → Avoids block.source sub) :
    ∀ op ∈ textOps top parts, op.Quiet sub := by
  intro op mem
  obtain ⟨⟨after, p, before⟩, here, mem⟩ := List.mem_flatMap.mp mem
  cases p with
  | raw value =>
    rw [textPartOps, Option.mem_toList, Option.map_eq_some_iff] at mem
    obtain ⟨text, -, rfl⟩ := mem
    exact ⟨target, .singleton _, by simp⟩
  | code block =>
    exact quiet_codeOps target (code block (Pass.mem_of_mem_withNeighbours here)) op mem
  | absent | misplaced => cases mem

theorem quiet_openingOps {t : Tag} {top ref : Bytes} (target : lt ∉ top) (name : lt ∉ ref)
    (quiet : (Node.tag t).Quiet sub)
    (static : (t.name.getD []).any Part.isExpression = false →
      Avoids ((t.name.getD []).flatMap Part.literalText) sub) (nonempty : sub ≠ []) :
    ∀ op ∈ openingOps top ref t, op.Quiet sub := by
  intro op mem
  rw [openingOps, List.mem_cons, List.mem_append, List.mem_map, List.mem_singleton] at mem
  rcases mem with rfl | ⟨s, set, rfl⟩ | rfl
  · refine ⟨name, quiet_namedText fun block mem => ?_, fun plain => ?_⟩
    · exact quiet.code block (List.mem_append_left _ mem)
    · rw [text_namedText plain]
      exact static (isCode_namedText _ ▸ plain)
  · obtain ⟨a, here, found⟩ := List.mem_flatMap.mp set
    rw [Option.mem_toList, Option.map_eq_some_iff] at found
    obtain ⟨a, rfl, rfl⟩ := found
    have own : a ∈ (Node.tag t).attributes := List.mem_filterMap.mpr ⟨_, here, rfl⟩
    refine quiet_setting name (fun block mem => quiet.code block ?_) (quiet.handler a own) nonempty
    exact List.mem_append_right _ (List.mem_flatMap.mpr ⟨a, own, mem⟩)
  · exact ⟨target, name⟩

theorem quiet_childOps {n : Node} {top ref : Bytes} (target : lt ∉ top) (name : lt ∉ ref)
    (quiet : n.Quiet sub)
    (static : ∀ text, n.plainName? = some text → Avoids text sub)
    (nonempty : sub ≠ []) : ∀ op ∈ childOps top ref n, op.Quiet sub := by
  cases n with
  | tag t =>
    rw [childOps]
    split
    · simp
    · rename_i opening
      refine quiet_openingOps target name quiet (fun plain => static _ ?_) nonempty
      simp [Node.plainName?, opening, plain]
  | text parts => exact quiet_textOps target quiet.code
  | raw value => exact quiet_textOps target quiet.code
  | code block => exact quiet_codeOps target (quiet.code block List.mem_cons_self)
  | absent | comment | doctype | misplaced => simp [childOps]

theorem not_mem_stackAfter {n : Node} {stack : List Bytes} {ref : Bytes} {b : UInt8}
    (h : ∀ r ∈ stack, b ∉ r) (name : b ∉ ref) : ∀ r ∈ stackAfter stack ref n, b ∉ r := by
  intro r mem
  rcases mem_stackAfter mem with mem | ⟨rfl, -⟩
  · exact h r mem
  · exact name

theorem quiet_translate {root : Bytes} (target : lt ∉ root) {stack : List Bytes}
    {ns : List (Node × Bytes)} (opened : ∀ r ∈ stack, lt ∉ r) (names : ∀ n ∈ ns, lt ∉ n.2)
    (quiet : ∀ n ∈ ns, n.1.Quiet sub)
    (static : ∀ n ∈ ns, ∀ text, n.1.plainName? = some text → Avoids text sub) (nonempty : sub ≠ []) :
    ∀ op ∈ translate root stack ns, op.Quiet sub := by
  induction ns generalizing stack with
  | nil => simp [translate]
  | cons first ns ih =>
    obtain ⟨n, ref⟩ := first
    rw [List.forall_mem_cons] at names quiet static
    have top : lt ∉ stack.headD root := by
      cases stack with
      | nil => exact target
      | cons r stack => exact opened r List.mem_cons_self
    rw [translate, List.forall_mem_append]
    exact ⟨quiet_childOps top names.1 quiet.1 static.1 nonempty,
      ih (not_mem_stackAfter opened names.1) names.2 quiet.2 static.2⟩

theorem lt_not_mem_tagStem (name : List Part) : lt ∉ tagStem name := by
  have other : ∀ b, stemByte b ≠ lt := Bytes.forall_byte (by decide +kernel)
  rw [tagStem]
  split
  · decide
  · intro mem
    obtain ⟨p, -, mem⟩ := List.mem_flatMap.mp mem
    cases p with
    | raw value =>
      obtain ⟨b, -, same⟩ := List.mem_map.mp mem
      exact other b same
    | absent | code | misplaced => cases mem

theorem lt_not_mem_elementName {elementPrefix : Bytes} (leads : lt ∉ elementPrefix)
    (issued : List Bytes) (name : List Part) :
    lt ∉ elementName elementPrefix issued (tagStem name) := by
  have digits : ∀ n, lt ∉ Bytes.decimal n := fun n mem =>
    absurd (Bytes.isDigit_of_mem_decimal mem) (by decide)
  have sign : lt ≠ underscore := by decide
  simp [elementName, leads, lt_not_mem_tagStem, digits, sign]

theorem lt_not_mem_labelled {options : CompileOptions} (leads : lt ∉ options.elementPrefix)
    (refs : ∀ s, lt ∉ s → lt ∉ options.ref s) (issued : List Bytes) (ns : List Node) :
    ∀ n ∈ labelled options issued ns, n.1 ∈ ns ∧ lt ∉ n.2 := by
  induction ns generalizing issued with
  | nil => simp [labelled]
  | cons n ns ih =>
    have later (issued' : List Bytes) : ∀ m ∈ labelled options issued' ns,
        m.1 ∈ n :: ns ∧ lt ∉ m.2 := fun m mem =>
      ⟨List.mem_cons_of_mem _ (ih issued' m mem).1, (ih issued' m mem).2⟩
    rw [labelled]
    split
    · exact List.forall_mem_cons.mpr ⟨⟨List.mem_cons_self,
        refs _ (lt_not_mem_elementName leads issued _)⟩, later _⟩
    · exact List.forall_mem_cons.mpr ⟨⟨List.mem_cons_self, List.not_mem_nil⟩, later _⟩

end Translated

end DomTemplate
