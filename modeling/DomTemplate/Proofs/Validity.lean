import DomTemplate.Proofs.Operations

/-! Which parts of a template compile, read off the parts themselves. A piece of a name or a
value is anything but a statement; an event needs a name and one handler; a text run takes
all code. Whether a part compiles depends on neither the scopes nor the target. -/

namespace DomTemplate

namespace Part

/-- May be a piece of a name or a value. -/
def isPiece : Part → Bool
  | absent | raw _ => true
  | code block => block.kind != .statement
  | misplaced _ => false

def isMisplaced : Part → Bool
  | misplaced _ => true
  | _ => false

/-- May be the handler of an event. -/
def isHandler : Part → Bool
  | raw _ => true
  | code block => block.kind != .comment
  | absent | misplaced _ => false

end Part

def AttrValue.isHandler (v : AttrValue) : Bool :=
  match v.parts.filter (!Compile.isBlankRaw ·) with
  | [p] => p.isHandler
  | _ => false

/-- An attribute with a name of pieces. An event has a name that is not empty and a handler;
the value of any other attribute is made of pieces. -/
def Attribute.isValid (a : Attribute) : Bool :=
  match a.name with
  | none | some [] => false
  | some name =>
    match eventName? name with
    | some event =>
      event.all Part.isPiece && event.any (fun p => !p.pieces.isEmpty) &&
        a.value.any AttrValue.isHandler
    | none => name.all Part.isPiece && a.value.all fun v => v.parts.all Part.isPiece

/-- An opening tag with a name of pieces and valid attributes. -/
def Tag.isValid (t : Tag) : Bool :=
  !t.source.isEmpty && (t.name.getD []).all Part.isPiece &&
    (t.attrs.getD []).all fun a => a.all Attribute.isValid

def Node.isValid : Node → Bool
  | tag t => t.closing || t.isValid
  | text parts => parts.all (!·.isMisplaced)
  | absent | code _ | raw _ | comment .. => true
  | doctype .. | misplaced _ => false

namespace Compile

theorem isOk_bind {α β : Type} {m : Except TemplateError α} {k : α → Except TemplateError β}
    {b : Bool} (h : ∀ a, m = .ok a → (k a).isOk = b) : (m.bind k).isOk = (m.isOk && b) := by
  cases m with
  | error e => rfl
  | ok a => exact h a rfl

theorem isOk_map {α β : Type} (m : Except TemplateError α) (k : α → β) :
    (m.map k).isOk = m.isOk := by
  cases m <;> rfl

theorem isOk_return {α β : Type} {m : Compile α} (hm : Transparent m) (k : α → β)
    (target : Bytes) : (alone (m >>= fun a => pure (k a)) target).isOk = (alone m target).isOk := by
  rw [alone_bind hm]
  cases alone m target <;> rfl

theorem isOk_mapM {α β : Type} (f : α → Except TemplateError β) (xs : List α) :
    (xs.mapM f).isOk = xs.all fun x => (f x).isOk := by
  induction xs with
  | nil => rfl
  | cons x xs ih =>
    rw [List.mapM_cons, List.all_cons, ← ih]
    cases f x with
    | error e => rfl
    | ok y => cases xs.mapM f <;> rfl

/-- What holds of the result of each part holds of the results together. -/
theorem all_mapM {α β : Type} {f : α → Except TemplateError β} {xs : List α} {ys : List β}
    {q : β → Bool} {r : α → Bool} (each : ∀ x y, f x = .ok y → q y = r x)
    (h : xs.mapM f = .ok ys) : ys.all q = xs.all r := by
  replace h := forall₂_of_mapM_ok h
  induction h with
  | nil => rfl
  | cons first _ ih => rw [List.all_cons, List.all_cons, each _ _ first, ih]

theorem isOk_inScope {α : Type} {compile : α → Compile Intent} (h : ∀ p, Transparent (compile p))
    (parts : List α) (target : Bytes) :
    (alone (inScope parts compile) target).isOk =
      parts.all fun p => (alone (compile p) target).isOk := by
  rw [alone_inScope h, isOk_map, isOk_mapM]

theorem isOk_textPart (p : Bool × Part × Bool) (target : Bytes) :
    (alone (textPart p) target).isOk = !p.2.1.isMisplaced := by
  obtain ⟨after, p, before⟩ := p
  cases p <;> rfl

theorem all_withNeighbours (q : Part → Bool) (after : Bool) (parts : List Part) :
    (withNeighbours after parts).all (fun p => q p.2.1) = parts.all q := by
  induction parts generalizing after with
  | nil => rfl
  | cons p ps ih => rw [withNeighbours, List.all_cons, List.all_cons, ih]

theorem isOk_text (parts : List Part) (target : Bytes) :
    (alone (text parts) target).isOk = parts.all (!·.isMisplaced) := by
  rw [text, isOk_return (transparent_inScope transparent_textPart _),
    isOk_inScope transparent_textPart]
  simp only [isOk_textPart]
  rw [all_withNeighbours (!·.isMisplaced)]

theorem isOk_literalPart (refusal : TemplateError) (p : Part) (target : Bytes) :
    (alone (literalPart refusal p) target).isOk = p.isPiece := by
  cases p with
  | absent | raw | misplaced => rfl
  | code block =>
    rw [literalPart]
    by_cases statement : block.kind = .statement
    · rw [if_pos statement]; simp [Part.isPiece, statement, Except.isOk, Except.toBool]
    · rw [if_neg statement]; simp [Part.isPiece, statement, Except.isOk, Except.toBool]

theorem isOk_pieces (refusal : TemplateError) (parts : List Part) (target : Bytes) :
    (alone (inScope parts (literalPart refusal)) target).isOk = parts.all Part.isPiece := by
  rw [isOk_inScope (transparent_literalPart refusal)]
  simp only [isOk_literalPart]

theorem isOk_handler (a : Attribute) (target : Bytes) :
    (alone (handler a) target).isOk = a.value.any AttrValue.isHandler := by
  unfold handler
  cases a.value with
  | none => rfl
  | some v =>
    simp only [Option.any_some, AttrValue.isHandler]
    split
    · rename_i nothing; rw [nothing]; rfl
    · rename_i p single
      rw [single, isOk_inScope (transparent_handlerPart a)]
      cases p with
      | raw | absent | misplaced => rfl
      | code block =>
        by_cases comment : block.kind = .comment <;>
          simp [handlerPart, comment, Part.isHandler, Except.isOk, Except.toBool]
    · rename_i none single
      split
      · rename_i p one; exact absurd one (single p)
      · rfl

/-- A compiled name is empty if its pieces are. -/
theorem isIgnore_pieces {refusal : TemplateError} {parts : List Part} {target : Bytes}
    {c : Container Intent} (h : alone (inScope parts (literalPart refusal)) target = .ok c) :
    c.nodes.all Intent.isIgnore = parts.all fun p => p.pieces.isEmpty := by
  obtain ⟨nodes, hnodes, rfl⟩ := alone_inScope_ok (transparent_literalPart refusal) h
  refine all_mapM (fun p n hn => ?_) hnodes
  cases p with
  | absent => cases hn; rfl
  | raw value =>
    cases hn
    rw [Part.pieces]
    cases value.isEmpty <;> rfl
  | code block =>
    obtain ⟨kind, source, pos⟩ := block
    rw [literalPart] at hn
    cases kind with
    | statement => cases hn
    | expression | comment | other => cases hn; rfl
  | misplaced kind => cases hn

theorem isOk_attributeOf (a : Attribute) (parts : List Part) (target : Bytes) :
    (alone (attributeOf a parts target) target).isOk =
      match eventName? parts with
      | some event =>
        event.all Part.isPiece && event.any (fun p => !p.pieces.isEmpty) &&
          a.value.any AttrValue.isHandler
      | none => parts.all Part.isPiece && a.value.all fun v => v.parts.all Part.isPiece := by
  unfold attributeOf
  cases hevent : eventName? parts with
  | some event =>
    simp only [attrName_of_event hevent]
    rw [alone_bind (transparent_inScope (transparent_namePart a) _), Bool.and_assoc,
      ← isOk_pieces (.invalidAttribute a.pos a.source .statementInName) event target]
    refine isOk_bind fun name hname => ?_
    have named : event.any (fun p => !p.pieces.isEmpty) = !name.nodes.all Intent.isIgnore := by
      rw [isIgnore_pieces hname, List.not_all_eq_any_not]
    rw [named]
    cases name.nodes.all Intent.isIgnore with
    | true => rfl
    | false =>
      rw [if_neg Bool.false_ne_true, isOk_return (transparent_handler a), isOk_handler]
      exact (Bool.true_and _).symm
  | none =>
    simp only [attrName_of_plain hevent]
    rw [alone_bind (transparent_inScope (transparent_namePart a) _),
      ← isOk_pieces (.invalidAttribute a.pos a.source .statementInName) parts target]
    refine isOk_bind fun name hname => ?_
    cases a.value with
    | none => rfl
    | some v =>
      simp only [Option.all_some]
      rw [isOk_return (transparent_inScope (transparent_valuePart a) _)]
      exact isOk_pieces _ _ _

theorem isOk_attr (a : Option Attribute) (target : Bytes) :
    (alone (attr a) target).isOk = a.all Attribute.isValid := by
  cases a with
  | none => rfl
  | some a =>
    rw [Option.all_some, Attribute.isValid, attr]
    cases a.name with
    | none => rfl
    | some parts =>
      cases parts with
      | nil => rfl
      | cons p ps =>
        simp only [namedAttribute_eq, alone_target]
        exact isOk_attributeOf a (p :: ps) target

theorem isOk_tagHead (t : Tag) (name : List Part) (ref : Bytes) :
    (alone (tagHead t name ref) ref).isOk =
      (name.all Part.isPiece && (t.attrs.getD []).all fun a => a.all Attribute.isValid) := by
  rw [tagHead, alone_bind (transparent_inScope (transparent_literalPart _) _)]
  rw [← isOk_pieces (.unreadable t.pos .statementInTagName) name ref]
  refine isOk_bind fun tag htag => ?_
  rw [isOk_return (transparent_tagSetup t ref), tagSetup]
  cases t.attrs with
  | none => rfl
  | some attrs =>
    simp only [isOk_inScope transparent_attr, isOk_attr, Option.getD_some]

/-- A child that is no tag compiles if it is valid, wherever it stands. -/
theorem isOk_leaf {options : CompileOptions} {n : Node} (plain : ∀ t, n ≠ .tag t)
    (target : Bytes) : (alone (node options n) target).isOk = n.isValid := by
  cases n with
  | tag t => exact absurd rfl (plain t)
  | text parts => exact isOk_text parts target
  | raw value => exact isOk_text [.raw value] target
  | absent | code | comment | doctype | misplaced => rfl

end Compile
end DomTemplate
