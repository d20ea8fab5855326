import DomTemplate.Proofs.Operations
import DomTemplate.Proofs.Step

/-! The shape of compiled intents. A name or a value holds text only, the setup of an element
holds attributes only, and nothing is absent. Writing operations fails on text of another shape
and on nothing else, so that whatever compiles can be written. -/

namespace DomTemplate

namespace Intent

/-- What may stand in a name, in a value or in a handler. -/
inductive IsText : Intent → Prop where
  | ignore : IsText .ignore
  | content (text : Bytes) : IsText (.content text)
  | expression (code : Bytes) : IsText (.expression code)
  | container {c : Container Intent} (nodes : ∀ n ∈ c.nodes, IsText n) : IsText (.container c)

/-- What may stand in the setup of an element. A flag has no value; any other attribute has one. -/
inductive IsSetting : Intent → Prop where
  | ignore : IsSetting .ignore
  | flag (target : Bytes) {name : Container Intent} (text : IsText (.container name)) :
      IsSetting (.attr target .flag (some name) none)
  | valued (target : Bytes) {kind : AttrKind} {name value : Container Intent} (other : kind ≠ .flag)
      (text : IsText (.container name)) (shown : IsText (.container value)) :
      IsSetting (.attr target kind (some name) (some value))

/-- What may stand in a run of text. -/
inductive IsRun : Intent → Prop where
  | text {n : Intent} (h : IsText n) : IsRun n
  | statement (code : Bytes) : IsRun (.statement code)
  | container {c : Container Intent} (nodes : ∀ n ∈ c.nodes, IsRun n) : IsRun (.container c)

/-- What may stand in a compiled document. -/
inductive IsShaped : Intent → Prop where
  | run {n : Intent} (h : IsRun n) : IsShaped n
  | create (ref : Bytes) {tag setup : Container Intent} (text : IsText (.container tag))
      (settings : ∀ n ∈ setup.nodes, IsSetting n) : IsShaped (.create ref (some tag) (some setup))
  | container {c : Container Intent} (nodes : ∀ n ∈ c.nodes, IsShaped n) : IsShaped (.container c)

/-- Collecting results in order succeeds if there is a result for each. -/
theorem collect_total {β : Type} (collect : List Intent → Except Crash (List β))
    (single : Intent → Except Crash (List β)) (nil : collect [] = .ok [])
    (cons : ∀ {n ns a b}, single n = .ok a → collect ns = .ok b → collect (n :: ns) = .ok (a ++ b))
    {nodes : List Intent} (h : ∀ n ∈ nodes, ∃ result, single n = .ok result) :
    ∃ results, collect nodes = .ok results := by
  induction nodes with
  | nil => exact ⟨[], nil⟩
  | cons n ns ih =>
    obtain ⟨⟨first, hfirst⟩, later⟩ := List.forall_mem_cons.mp h
    obtain ⟨rest, hrest⟩ := ih later
    exact ⟨first ++ rest, cons hfirst hrest⟩

theorem opsIn_total {current : Bytes} {c : Container Intent}
    (h : ∀ n ∈ c.nodes, ∀ current parent, ∃ steps, n.ops current parent = .ok steps) :
    ∃ steps, opsIn current c = .ok steps := by
  obtain ⟨target, nodes⟩ := c
  exact collect_total (opsOf target current) (ops target current) rfl opsOf_cons
    fun n mem => h n mem target current

theorem IsText.pieces_total {n : Intent} (h : n.IsText) : ∃ fs, n.pieces = .ok fs := by
  induction h with
  | ignore | content | expression => exact ⟨_, rfl⟩
  | @container c nodes ih =>
    obtain ⟨target, nodes⟩ := c
    exact collect_total piecesOf pieces rfl piecesOf_cons ih

theorem IsText.fragments_total {c : Container Intent} (h : IsText (.container c)) :
    ∃ fs, fragments (some c) = .ok fs := by
  obtain ⟨fs, pieces⟩ := h.pieces_total
  exact ⟨mergeLiterals fs, congrArg (Except.map mergeLiterals) pieces⟩

theorem IsText.ops_total {n : Intent} (h : n.IsText) (current parent : Bytes) :
    ∃ steps, n.ops current parent = .ok steps := by
  induction h generalizing current parent with
  | ignore | content | expression => exact ⟨_, rfl⟩
  | container nodes ih => exact opsIn_total ih

theorem IsSetting.ops_total {n : Intent} (h : n.IsSetting) (current parent : Bytes) :
    ∃ steps, n.ops current parent = .ok steps := by
  cases h with
  | ignore => exact ⟨_, rfl⟩
  | flag target text =>
    obtain ⟨name, hname⟩ := text.fragments_total
    exact ⟨_, by simp only [ops, attrOp, hname]; rfl⟩
  | @valued target kind name value other text shown =>
    obtain ⟨name, hname⟩ := text.fragments_total
    obtain ⟨value, hvalue⟩ := shown.fragments_total
    cases kind with
    | flag => exact absurd rfl other
    | value => exact ⟨_, by simp only [ops, attrOp, hname, hvalue]; rfl⟩
    | event => exact ⟨_, by simp only [ops, attrOp, handlerCode, hname, hvalue]; rfl⟩

theorem IsRun.ops_total {n : Intent} (h : n.IsRun) (current parent : Bytes) :
    ∃ steps, n.ops current parent = .ok steps := by
  induction h generalizing current parent with
  | text h => exact h.ops_total current parent
  | statement => exact ⟨_, rfl⟩
  | container nodes ih => exact opsIn_total ih

/-- Intents of the right shape have operations, wherever they stand. -/
theorem IsShaped.ops_total {n : Intent} (h : n.IsShaped) (current parent : Bytes) :
    ∃ steps, n.ops current parent = .ok steps := by
  induction h generalizing current parent with
  | run h => exact h.ops_total current parent
  | @create ref tag setup text settings =>
    obtain ⟨name, hname⟩ := text.fragments_total
    obtain ⟨steps, hsteps⟩ : ∃ steps, opsIn current setup = .ok steps :=
      opsIn_total fun n mem => (settings n mem).ops_total
    exact ⟨_, by simp only [ops, hname, opsIn?, hsteps]; rfl⟩
  | container nodes ih => exact opsIn_total ih

end Intent

namespace Compile
open Intent
variable {options : CompileOptions} {target : Bytes} {n : Intent}

/-- What holds of the intent of each part holds of all of them. -/
theorem forall_mem_of_mapM {α : Type} {compile : α → Except TemplateError Intent}
    {P : Intent → Prop} (h : ∀ p n, compile p = .ok n → P n) {parts : List α} {nodes : List Intent}
    (hnodes : parts.mapM compile = .ok nodes) : ∀ n ∈ nodes, P n := by
  replace hnodes := forall₂_of_mapM_ok hnodes
  induction hnodes with
  | nil => simp
  | cons first _ ih => exact List.forall_mem_cons.mpr ⟨h _ _ first, ih⟩

theorem forall_mem_inScope {α : Type} {compile : α → Compile Intent} {P : Intent → Prop}
    (transparent : ∀ p, Transparent (compile p))
    (h : ∀ p n, alone (compile p) target = .ok n → P n) {parts : List α} {c : Container Intent}
    (hc : alone (inScope parts compile) target = .ok c) : ∀ n ∈ c.nodes, P n := by
  obtain ⟨nodes, hnodes, rfl⟩ := alone_inScope_ok transparent hc
  exact forall_mem_of_mapM h hnodes

theorem isRun_code (block : Code) : (code block).IsRun := by
  unfold code
  cases block.kind with
  | statement => exact .statement _
  | expression => exact .text (.expression _)
  | comment | other => exact .text .ignore

theorem isText_code {block : Code} (other : block.kind ≠ .statement) : (code block).IsText := by
  unfold code
  cases kind : block.kind with
  | statement => exact absurd kind other
  | expression => exact .expression _
  | comment | other => exact .ignore

theorem isRun_textPart {p : Bool × Part × Bool} (h : alone (textPart p) target = .ok n) :
    n.IsRun := by
  obtain ⟨after, p, before⟩ := p
  cases p with
  | absent => cases h; exact .text .ignore
  | raw value =>
    cases h
    unfold literal
    split
    · exact .text .ignore
    · exact .text (.content _)
  | code block => cases h; exact isRun_code block
  | misplaced kind => cases h

theorem isRun_leaf {child : Node} (plain : ∀ t, child ≠ .tag t)
    (h : alone (node options child) target = .ok n) : n.IsRun := by
  have run {parts : List Part} (h : alone (text parts) target = .ok n) : n.IsRun := by
    obtain ⟨c, hc, hn⟩ := alone_bind_ok (transparent_inScope transparent_textPart _) h
    cases hn
    exact .container (forall_mem_inScope transparent_textPart (fun _ _ => isRun_textPart) hc)
  cases child with
  | tag t => exact absurd rfl (plain t)
  | text parts => exact run h
  | raw value => exact run h
  | code block => cases h; exact isRun_code block
  | absent | comment => cases h; exact .text .ignore
  | doctype | misplaced => cases h

theorem isText_literalPart {refusal : TemplateError} {p : Part}
    (h : alone (literalPart refusal p) target = .ok n) : n.IsText := by
  cases p with
  | absent => cases h; exact .ignore
  | raw value =>
    rw [literalPart, alone_pure, Except.ok.injEq] at h
    rw [← h]
    split
    · exact .ignore
    · exact .content value
  | code block =>
    rw [literalPart] at h
    split at h
    · cases h
    · rename_i other
      cases h
      exact isText_code other
  | misplaced kind => cases h

theorem isText_named {refusal : TemplateError} {parts : List Part} {c : Container Intent}
    (h : alone (inScope parts (literalPart refusal)) target = .ok c) : IsText (.container c) :=
  .container (forall_mem_inScope (transparent_literalPart refusal) (fun _ _ => isText_literalPart) h)

theorem isText_handler {a : Attribute} {c : Container Intent}
    (h : alone (handler a) target = .ok c) : IsText (.container c) := by
  have part (p : Part) (n : Intent) (h : alone (handlerPart a p) target = .ok n) : n.IsText := by
    cases p with
    | absent | misplaced => cases h
    | raw value => cases h; exact .content _
    | code block =>
      rw [handlerPart] at h
      split at h
      · cases h
      · cases h
        exact .expression _
  unfold handler at h
  split at h
  · cases h
  split at h
  · cases h
  · exact .container (forall_mem_inScope (transparent_handlerPart a) part h)
  · cases h

theorem isSetting_attr {a : Option Attribute} (h : alone (attr a) target = .ok n) :
    n.IsSetting := by
  unfold attr at h
  split at h
  · cases h
    exact .ignore
  split at h
  · cases h
  · cases h
  · rw [namedAttribute_eq, alone_target, attributeOf] at h
    split at h
    · obtain ⟨name, hname, h⟩ := alone_bind_ok (transparent_inScope (transparent_namePart _) _) h
      split at h
      · cases h
      · obtain ⟨code, hcode, h⟩ := alone_bind_ok (transparent_handler _) h
        cases h
        exact .valued target (by decide) (isText_named hname) (isText_handler hcode)
    · obtain ⟨name, hname, h⟩ := alone_bind_ok (transparent_inScope (transparent_namePart _) _) h
      split at h
      · cases h
        exact .flag target (isText_named hname)
      · obtain ⟨text, htext, h⟩ := alone_bind_ok (transparent_inScope (transparent_valuePart _) _) h
        cases h
        exact .valued target (by decide) (isText_named hname) (isText_named htext)

/-- The head of an opening tag: a name made of text, and attributes. -/
theorem isShaped_head {t : Tag} {name : List Part} {ref : Bytes}
    {head : Container Intent × Container Intent} (h : alone (tagHead t name ref) ref = .ok head) :
    IsText (.container head.1) ∧ ∀ n ∈ head.2.nodes, n.IsSetting := by
  obtain ⟨tag, htag, h⟩ := alone_bind_ok (transparent_inScope (transparent_literalPart _) _) h
  obtain ⟨setup, hsetup, h⟩ := alone_bind_ok (transparent_tagSetup t ref) h
  cases h
  refine ⟨isText_named htag, ?_⟩
  unfold tagSetup at hsetup
  split at hsetup
  · cases hsetup
    simp
  · exact forall_mem_inScope transparent_attr (fun _ _ => isSetting_attr) hsetup

theorem isShaped_creation {t : Tag} {name : List Part} {ref : Bytes}
    {head : Container Intent × Container Intent} (h : alone (tagHead t name ref) ref = .ok head) :
    (creation ref head).IsShaped :=
  .create ref (isShaped_head h).1 (isShaped_head h).2

/-- All frames hold intents of the right shape. -/
def Shaped (scopes : Scopes) : Prop := ∀ f ∈ scopes, ∀ n ∈ f.nodes, n.IsShaped

theorem Shaped.append {f : Frame} {outer : Scopes} (h : Shaped (f :: outer)) (new : n.IsShaped) :
    Shaped (f.append n :: outer) := by
  obtain ⟨first, later⟩ := List.forall_mem_cons.mp h
  refine List.forall_mem_cons.mpr ⟨?_, later⟩
  exact List.forall_mem_append.mpr ⟨first, List.forall_mem_singleton.mpr new⟩

/-- Placing a child keeps every frame in shape. -/
theorem Placed.shaped {child : Node} {s s' : CompileState} (h : Placed options child s s')
    (shaped : Shaped s.scopes) : Shaped s'.scopes := by
  cases h with
  | leaf plain result => exact shaped.append (.run (isRun_leaf plain result))
  | void opening named nonempty void fresh result =>
    refine shaped.append (.container ?_)
    exact List.forall_mem_singleton.mpr (isShaped_creation result)
  | opened opening named nonempty void fresh result =>
    refine List.forall_mem_cons.mpr ⟨?_, shaped⟩
    exact List.forall_mem_singleton.mpr (isShaped_creation result)
  | closed closing element same =>
    obtain ⟨inner, outer⟩ := List.forall_mem_cons.mp shaped
    exact Shaped.append outer (.container inner)

theorem Placed.ne_nil {child : Node} {s s' : CompileState} (h : Placed options child s s') :
    ∃ f outer, s'.scopes = f :: outer := by
  cases h <;> exact ⟨_, _, rfl⟩

theorem each_shaped {children : List Node} {s s' : CompileState}
    (h : each (node options) children s = .ok ((), s')) (nonempty : ∃ f outer, s.scopes = f :: outer)
    (shaped : Shaped s.scopes) : Shaped s'.scopes := by
  induction children generalizing s with
  | nil =>
    cases h
    exact shaped
  | cons child children ih =>
    obtain ⟨scopes, issued⟩ := s
    obtain ⟨f, outer, rfl⟩ := nonempty
    obtain ⟨mid, placed, rest⟩ := each_cons_ok h
    exact ih rest placed.ne_nil (placed.shaped shaped)

end Compile

open Compile Intent

/-- A compiled document has the right shape, and every exporter can write it. -/
theorem Document.isShaped_compile {options : CompileOptions} {doc : Document} {c : Container Intent}
    (h : doc.compile options = .ok c) :
    (Intent.container c).IsShaped ∧ ∀ e : Exporter, ∃ code, e.render (.container c) = .ok code := by
  obtain ⟨d, r, issued, run, rfl⟩ := compile_ok h
  have empty : Shaped (initial options).scopes := by simp [Shaped, initial]
  have shaped := each_shaped run ⟨_, _, rfl⟩ empty d List.mem_cons_self
  have whole : (Intent.container d.container).IsShaped := .container shaped
  refine ⟨whole, fun e => ?_⟩
  obtain ⟨steps, hsteps⟩ := whole.ops_total e.root e.root
  exact ⟨_, congrArg (Except.map _) hsteps⟩

/-- Children with entries missing, code of a kind that no template has, and each kind of
attribute. -/
def untidy : Document where
  children := [
    .absent,
    .tag ⟨some [.absent, .raw (utf8 "b"), .code ⟨.other 7, [], {}⟩],
      some [none,
        some ⟨some [.raw (utf8 "on"), .code ⟨.expression, utf8 "e", {}⟩],
          some ⟨none, [.code ⟨.statement, utf8 "go()", {}⟩]⟩, {}⟩,
        some ⟨some [.raw (utf8 "a")], some ⟨none, [.absent]⟩, {}⟩,
        some ⟨some [.absent], none, {}⟩], false, false, {}⟩,
    .text [.absent, .code ⟨.statement, utf8 "if x", {}⟩],
    .tag ⟨some [.raw (utf8 "br")], some [], false, false, {}⟩,
    .code ⟨.other (-1), utf8 "y", {}⟩,
    .tag ⟨some [.raw (utf8 "b\x7b\x7d")], none, true, false, {}⟩]

theorem Document.isShaped_compile_untidy :
    let options : CompileOptions := { root := [], elementPrefix := [], ref := fun _ => [] }
    ∃ c, untidy.compile options = .ok c ∧ (Intent.container c).IsShaped ∧
      ∀ e : Exporter, ∃ code, e.render (.container c) = .ok code := by
  intro options
  have accepted : (untidy.compile options).toOption.isSome = true := by decide +kernel
  cases compiled : untidy.compile options with
  | ok c => exact ⟨c, rfl, Document.isShaped_compile compiled⟩
  | error e => rw [compiled] at accepted; cases accepted

end DomTemplate
