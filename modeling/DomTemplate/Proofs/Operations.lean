import DomTemplate.DomOp
import DomTemplate.Proofs.Transparent

/-! The operations that a template asks for, read off its parts without scopes or
containers: the fragments of a name, what an attribute sets, and what each part of a text
run adds. What the compiler gives for a part asks for these operations and no others. -/

namespace DomTemplate

namespace Node

def attributes : Node → List Attribute
  | tag t => (t.attrs.getD []).filterMap id
  | _ => []

/-- The parts of the names, values and texts of a child. -/
def parts : Node → List Part
  | tag t =>
    t.name.getD [] ++ (Node.tag t).attributes.flatMap fun a =>
      a.name.getD [] ++ a.value.elim [] AttrValue.parts
  | text parts => parts
  | raw value => [.raw value]
  | code block => [.code block]
  | absent | comment .. | doctype .. | misplaced _ => []

def blocks (n : Node) : List Code :=
  n.parts.filterMap fun
    | .code block => some block
    | _ => none

theorem mem_blocks {n : Node} {block : Code} : block ∈ n.blocks ↔ .code block ∈ n.parts := by
  constructor
  · intro mem
    obtain ⟨p, here, same⟩ := List.mem_filterMap.mp mem
    cases p with
    | code block' =>
      cases same
      exact here
    | _ => cases same
  · exact fun mem => List.mem_filterMap.mpr ⟨_, mem, rfl⟩

end Node

/-- The fragments of a piece of a name or a value. -/
def Part.pieces : Part → List Fragment
  | .raw value => if value.isEmpty then [] else [.literal value]
  | .code ⟨.expression, source, _⟩ => [.code source.trim]
  | _ => []

/-- The text of a name or a value. -/
def namedText (parts : List Part) : List Fragment := mergeLiterals (parts.flatMap Part.pieces)

/-- What an attribute does to its element. -/
inductive AttrSetting where
  | value (name text : List Fragment)
  | flag (name : List Fragment)
  | listener (event : List Fragment) (handler : Bytes)
  deriving DecidableEq, Repr

def AttrSetting.op (target : Bytes) : AttrSetting → DomOp
  | value name text => .setAttribute target name text
  | flag name => .setFlag target name
  | listener event handler => .listen target event handler

/-- The event that an attribute called `parts` is about. -/
def eventName? : List Part → Option (List Part)
  | .raw value :: rest =>
    (Bytes.dropPrefix? (utf8 "on") value).map fun event => .raw event :: rest
  | _ => none

/-- The code of a part of a handler. -/
def Part.handlerText : Part → Bytes
  | .raw value => value.trim
  | .code block => block.source.trim
  | _ => []

/-- The handler written in a value: its parts, blank ones aside. -/
def AttrValue.handlerText (v : AttrValue) : Bytes :=
  (v.parts.filter (!Compile.isBlankRaw ·)).flatMap Part.handlerText

def Attribute.setting (a : Attribute) : AttrSetting :=
  match eventName? (a.name.getD []) with
  | some event => .listener (namedText event) (a.value.elim [] AttrValue.handlerText)
  | none =>
    match a.value with
    | none => .flag (namedText (a.name.getD []))
    | some value => .value (namedText (a.name.getD [])) (namedText value.parts)

/-- What the attributes of a tag do, in the order in which they are written. -/
def Tag.settings (t : Tag) : List AttrSetting :=
  (t.attrs.getD []).flatMap fun a => (a.map Attribute.setting).toList

/-- What a literal of a text run shows: nothing if it is blank, and white space at an end
only next to an expression. -/
def shownLiteral? (afterExpression beforeExpression : Bool) (value : Bytes) : Option Bytes :=
  if value.isBlank then none
  else
    let value := if afterExpression then value else value.dropWhile Ascii.isBlank
    some (if beforeExpression then value else Bytes.dropWhileRight Ascii.isBlank value)

def Code.ops (target : Bytes) (block : Code) : List DomOp :=
  match block.kind with
  | .statement => [.run block.source.trim]
  | .expression => [.addText target (.code block.source.trim)]
  | .comment | .other _ => []

/-- The operations of a part of a text run, which stands between the given neighbours. -/
def textPartOps (target : Bytes) : Bool × Part × Bool → List DomOp
  | (after, .raw value, before) =>
    ((shownLiteral? after before value).map fun text => .addText target (.literal text)).toList
  | (_, .code block, _) => block.ops target
  | (_, .absent, _) | (_, .misplaced _, _) => []

def textOps (target : Bytes) (parts : List Part) : List DomOp :=
  (Compile.withNeighbours false parts).flatMap (textPartOps target)

/-- The operations of an opening tag inside `parent`. -/
def openingOps (parent ref : Bytes) (t : Tag) : List DomOp :=
  .create ref (namedText (t.name.getD [])) ::
    (t.settings.map (AttrSetting.op ref) ++ [.appendChild parent ref])

namespace Intent

theorem opsOf_cons {current parent : Bytes} {n : Intent} {ns : List Intent} {a b : List DomOp}
    (hn : n.ops current parent = .ok a) (hns : opsOf current parent ns = .ok b) :
    opsOf current parent (n :: ns) = .ok (a ++ b) := by
  simp [opsOf, hn, hns, bind, Except.bind, pure, Except.pure]

theorem opsOf_append {current parent : Bytes} {ms ns : List Intent} {a b : List DomOp}
    (hm : opsOf current parent ms = .ok a) (hn : opsOf current parent ns = .ok b) :
    opsOf current parent (ms ++ ns) = .ok (a ++ b) := by
  induction ms generalizing a with
  | nil => simp only [opsOf, Except.ok.injEq] at hm; simp [← hm, hn]
  | cons m ms ih =>
    rw [opsOf] at hm
    obtain ⟨first, hfirst, hm⟩ := exists_of_bind_ok hm
    obtain ⟨rest, hrest, hm⟩ := exists_of_bind_ok hm
    cases hm
    rw [List.cons_append, opsOf_cons hfirst (ih hrest), List.append_assoc]

theorem piecesOf_cons {n : Intent} {ns : List Intent} {a b : List Fragment}
    (hn : n.pieces = .ok a) (hns : piecesOf ns = .ok b) : piecesOf (n :: ns) = .ok (a ++ b) := by
  simp [piecesOf, hn, hns, bind, Except.bind, pure, Except.pure]

end Intent

namespace Compile
open Intent

variable {α : Type}

/-- Collecting results in order is collecting what each of them stands for. -/
theorem collect_mapM {β : Type} {compile : α → Except TemplateError Intent}
    (collect : List Intent → Except Crash (List β)) (single : Intent → Except Crash (List β))
    (meaning : α → List β) (nil : collect [] = .ok [])
    (cons : ∀ {n ns a b}, single n = .ok a → collect ns = .ok b → collect (n :: ns) = .ok (a ++ b))
    (h : ∀ p n, compile p = .ok n → single n = .ok (meaning p)) {parts : List α}
    {nodes : List Intent} (hnodes : parts.mapM compile = .ok nodes) :
    collect nodes = .ok (parts.flatMap meaning) := by
  replace hnodes := forall₂_of_mapM_ok hnodes
  induction hnodes with
  | nil => exact nil
  | cons first _ ih => exact cons (h _ _ first) ih

theorem ops_code (block : Code) (current parent : Bytes) :
    (code block).ops current parent = .ok (block.ops current) := by
  unfold code Code.ops
  cases block.kind <;> rfl

theorem ops_literal (after before : Bool) (value current parent : Bytes) :
    (literal after before value).ops current parent =
      .ok (textPartOps current (after, .raw value, before)) := by
  simp only [literal, textPartOps, shownLiteral?]
  split <;> rfl

theorem ops_textPart {p : Bool × Part × Bool} {target current parent : Bytes} {n : Intent}
    (h : alone (textPart p) target = .ok n) :
    n.ops current parent = .ok (textPartOps current p) := by
  obtain ⟨after, p, before⟩ := p
  cases p with
  | absent => cases h; rfl
  | raw value => cases h; exact ops_literal ..
  | code block => cases h; exact ops_code ..
  | misplaced kind => cases h

/-- A text run adds what its parts show to the innermost target. -/
theorem ops_text {parts : List Part} {target parent : Bytes} {n : Intent}
    (h : alone (text parts) target = .ok n) :
    n.ops target parent = .ok (textOps target parts) := by
  obtain ⟨c, hc, hn⟩ := alone_bind_ok (transparent_inScope transparent_textPart _) h
  obtain ⟨nodes, hnodes, rfl⟩ := alone_inScope_ok transparent_textPart hc
  cases hn
  simp only [Intent.ops, opsIn]
  exact collect_mapM (opsOf target target) (Intent.ops target target) (textPartOps target) rfl
    opsOf_cons (fun p n => ops_textPart) hnodes

theorem pieces_literalPart {refusal : TemplateError} {p : Part} {target : Bytes} {n : Intent}
    (h : alone (literalPart refusal p) target = .ok n) : n.pieces = .ok p.pieces := by
  cases p with
  | absent => cases h; rfl
  | raw value =>
    rw [literalPart, alone_pure, Except.ok.injEq] at h
    rw [← h, Part.pieces]
    cases value.isEmpty <;> rfl
  | code block =>
    obtain ⟨kind, source, pos⟩ := block
    rw [literalPart] at h
    cases kind with
    | statement => cases h
    | expression | comment | other => cases h; rfl
  | misplaced kind => cases h

/-- A compiled name or value has the text of its parts. -/
theorem fragments_inScope {refusal : TemplateError} {parts : List Part} {target : Bytes}
    {c : Container Intent} (h : alone (inScope parts (literalPart refusal)) target = .ok c) :
    fragments (some c) = .ok (namedText parts) := by
  obtain ⟨nodes, hnodes, rfl⟩ := alone_inScope_ok (transparent_literalPart refusal) h
  have collected := collect_mapM piecesOf pieces Part.pieces rfl piecesOf_cons
    (fun p n => pieces_literalPart) hnodes
  rw [fragments, piecesIn, collected]
  rfl

theorem handlerCode_handlerPart {a : Attribute} {p : Part} {target : Bytes}
    {c : Container Intent} (h : alone (inScope [p] (handlerPart a)) target = .ok c) :
    handlerCode (some c) = .ok p.handlerText := by
  obtain ⟨nodes, hnodes, rfl⟩ := alone_inScope_ok (transparent_handlerPart a) h
  rw [List.mapM_cons, List.mapM_nil] at hnodes
  cases p with
  | absent => cases hnodes
  | raw value =>
    cases hnodes
    simp [handlerCode, fragments, piecesIn, piecesOf, pieces, mergeLiterals, Part.handlerText,
      Except.map, bind, Except.bind, pure, Except.pure, Fragment.text]
  | code block =>
    rw [handlerPart] at hnodes
    by_cases comment : block.kind = .comment
    · rw [if_pos comment] at hnodes; cases hnodes
    · rw [if_neg comment] at hnodes
      cases hnodes
      simp [handlerCode, fragments, piecesIn, piecesOf, pieces, mergeLiterals, Part.handlerText,
        Except.map, bind, Except.bind, pure, Except.pure, Fragment.text]
  | misplaced kind => cases hnodes

theorem handlerCode_handler {a : Attribute} {target : Bytes} {c : Container Intent}
    (h : alone (handler a) target = .ok c) :
    handlerCode (some c) = .ok (a.value.elim [] AttrValue.handlerText) := by
  unfold handler at h
  cases hvalue : a.value with
  | none => rw [hvalue] at h; cases h
  | some value =>
    simp only [hvalue] at h
    split at h
    · cases h
    · rename_i p hparts
      rw [handlerCode_handlerPart h]
      simp [AttrValue.handlerText, hparts]
    · cases h

theorem attrName_of_event {parts event : List Part} (h : eventName? parts = some event) :
    attrName parts = .event event := by
  unfold eventName? at h
  split at h
  · rw [Option.map_eq_some_iff] at h
    obtain ⟨name, hname, rfl⟩ := h
    simp [attrName, hname]
  · cases h

theorem attrName_of_plain {parts : List Part} (h : eventName? parts = none) :
    attrName parts = .plain parts := by
  unfold attrName
  split
  · rw [eventName?, Option.map_eq_none_iff] at h
    rw [h]
  · rfl

/-- An attribute asks for its setting, on the target it was compiled for. -/
theorem ops_namedAttribute {a : Attribute} {parts : List Part} {target current parent : Bytes}
    {n : Intent} (named : a.name = some parts)
    (h : alone (namedAttribute a parts) target = .ok n) :
    n.ops current parent = .ok [a.setting.op target] := by
  rw [namedAttribute_eq, alone_target, attributeOf] at h
  cases hevent : eventName? parts with
  | some event =>
    rw [attrName_of_event hevent] at h
    obtain ⟨name, hname, h⟩ := alone_bind_ok (transparent_inScope (transparent_namePart a) _) h
    split at h
    · cases h
    · obtain ⟨code, hcode, h⟩ := alone_bind_ok (transparent_handler a) h
      cases h
      simp [Intent.ops, attrOp, fragments_inScope hname, handlerCode_handler hcode,
        Attribute.setting, named, hevent, AttrSetting.op, Except.map, bind,
        Except.bind, pure, Except.pure]
  | none =>
    rw [attrName_of_plain hevent] at h
    obtain ⟨name, hname, h⟩ := alone_bind_ok (transparent_inScope (transparent_namePart a) _) h
    cases hvalue : a.value with
    | none =>
      simp only [hvalue] at h
      cases h
      simp [Intent.ops, attrOp, fragments_inScope hname, Attribute.setting, named, hevent, hvalue,
        AttrSetting.op, Except.map, bind, Except.bind, pure, Except.pure]
    | some value =>
      simp only [hvalue] at h
      obtain ⟨text, htext, h⟩ := alone_bind_ok (transparent_inScope (transparent_valuePart a) _) h
      cases h
      simp [Intent.ops, attrOp, fragments_inScope hname, fragments_inScope htext,
        Attribute.setting, named, hevent, hvalue, AttrSetting.op, Except.map, bind, Except.bind,
        pure, Except.pure]

theorem ops_attr {a : Option Attribute} {target current parent : Bytes} {n : Intent}
    (h : alone (attr a) target = .ok n) :
    n.ops current parent = .ok ((a.map fun a => a.setting.op target).toList) := by
  cases a with
  | none => cases h; rfl
  | some a =>
    cases named : a.name with
    | none => simp only [attr, named] at h; cases h
    | some parts =>
      cases parts with
      | nil => simp only [attr, named] at h; cases h
      | cons p ps =>
        simp only [attr, named] at h
        exact ops_namedAttribute named h

theorem settings_ops (t : Tag) (ref : Bytes) :
    (t.attrs.getD []).flatMap (fun a => (a.map fun a => a.setting.op ref).toList) =
      t.settings.map (AttrSetting.op ref) := by
  rw [Tag.settings, List.map_flatMap]
  congr 1
  funext a
  cases a <;> rfl

theorem opsIn_tagSetup {t : Tag} {ref current : Bytes} {c : Container Intent}
    (h : alone (tagSetup t ref) ref = .ok c) :
    opsIn current c = .ok (t.settings.map (AttrSetting.op ref)) := by
  rw [← settings_ops]
  unfold tagSetup at h
  cases hattrs : t.attrs with
  | none => simp only [hattrs] at h; cases h; rfl
  | some attrs =>
    simp only [hattrs] at h
    obtain ⟨nodes, hnodes, rfl⟩ := alone_inScope_ok transparent_attr h
    exact collect_mapM (opsOf ref current) (Intent.ops ref current) _ rfl opsOf_cons
      (fun p n => ops_attr) hnodes

/-- What an opening tag creates asks for the operations of the tag. -/
theorem opsOf_creation {t : Tag} {name : List Part} {ref : Bytes}
    {head : Container Intent × Container Intent} (current parent : Bytes)
    (named : t.name = some name) (h : alone (tagHead t name ref) ref = .ok head) :
    opsOf current parent [creation ref head] = .ok (openingOps parent ref t) := by
  obtain ⟨tag, htag, h⟩ := alone_bind_ok (transparent_inScope (transparent_literalPart _) _) h
  obtain ⟨setup, hsetup, h⟩ := alone_bind_ok (transparent_tagSetup t ref) h
  cases h
  simp [creation, opsOf, Intent.ops, opsIn?, fragments_inScope htag, opsIn_tagSetup hsetup,
    openingOps, named, bind, Except.bind, pure, Except.pure]

end Compile
end DomTemplate
