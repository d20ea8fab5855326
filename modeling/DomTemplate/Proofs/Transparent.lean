import DomTemplate.Intent.Compile
import DomTemplate.Proofs.Results

/-! Compiling in transparent scopes. A text run, a name, a value, an attribute and the head
of an opening tag read nothing of the state but the innermost target, and leave the state as
they found it. What such a step gives is therefore what it gives alone, in a scope of its
own; only tags move the scopes, and the equation of an opening tag says how. -/

namespace DomTemplate.Compile

/-- What `m` gives in a scope of its own for the node `target`. -/
def alone {α : Type} (m : Compile α) (target : Bytes) : Except TemplateError α :=
  (m ⟨[{ target }], []⟩).map Prod.fst

/-- `m` depends on nothing but the innermost target, and leaves the state as it is. -/
def Transparent {α : Type} (m : Compile α) : Prop :=
  ∀ (f : Frame) (outer : Scopes) (issued : List Bytes),
    m ⟨f :: outer, issued⟩ = (alone m f.target).map (·, ⟨f :: outer, issued⟩)

variable {α β : Type}

theorem pure_apply (a : α) (s : CompileState) : (pure a : Compile α) s = .ok (a, s) := rfl

theorem transparent_pure (a : α) : Transparent (pure a : Compile α) := by
  intro f outer issued
  rfl

theorem transparent_fail (e : TemplateError) : Transparent (fail e : Compile α) := by
  intro f outer issued
  rfl

@[simp] theorem alone_pure (a : α) (target : Bytes) : alone (pure a) target = .ok a := rfl

@[simp] theorem alone_fail (e : TemplateError) (target : Bytes) :
    alone (fail e : Compile α) target = .error e := rfl

theorem alone_bind {m : Compile α} {k : α → Compile β} (hm : Transparent m) (target : Bytes) :
    alone (m >>= k) target = (alone m target).bind fun a => alone (k a) target := by
  have h := hm { target } [] []
  simp only [alone, bind, StateT.bind] at h ⊢
  rw [h]
  cases m ⟨[{ target }], []⟩ <;> rfl

theorem alone_bind_ok {m : Compile α} {k : α → Compile β} (hm : Transparent m) {target : Bytes}
    {b : β} (h : alone (m >>= k) target = .ok b) :
    ∃ a, alone m target = .ok a ∧ alone (k a) target = .ok b := by
  rw [alone_bind hm] at h
  exact exists_of_bind_ok h

theorem transparent_bind {m : Compile α} {k : α → Compile β} (hm : Transparent m)
    (hk : ∀ a, Transparent (k a)) : Transparent (m >>= k) := by
  intro f outer issued
  rw [alone_bind hm]
  simp only [bind, StateT.bind, hm f outer issued]
  cases h : alone m f.target with
  | error e => rfl
  | ok a => exact hk a f outer issued

theorem each_transparent {compile : α → Compile Intent} (h : ∀ p, Transparent (compile p))
    (parts : List α) (f : Frame) (outer : Scopes) (issued : List Bytes) :
    each compile parts ⟨f :: outer, issued⟩ =
      (parts.mapM fun p => alone (compile p) f.target).map fun nodes =>
        ((), ⟨{ f with nodes := f.nodes ++ nodes } :: outer, issued⟩) := by
  induction parts generalizing f with
  | nil =>
    rw [each, pure_apply]
    simp [pure, Except.pure, Except.map]
  | cons p ps ih =>
    simp only [each, bind, StateT.bind, h p f outer issued, List.mapM_cons]
    cases hp : alone (compile p) f.target with
    | error e => rfl
    | ok n =>
      have step := ih (f.append n)
      simp only [Frame.append] at step
      simp only [Except.map, Except.bind, append, Scopes.append, Frame.append, step]
      cases ps.mapM fun p => alone (compile p) f.target <;> simp [pure, Except.pure]

/-- Parts that leave the scopes alone make up a container of what each of them gives. -/
theorem inScope_run {compile : α → Compile Intent} (h : ∀ p, Transparent (compile p))
    (parts : List α) (f : Frame) (outer : Scopes) (issued : List Bytes) :
    inScope parts compile ⟨f :: outer, issued⟩ =
      (parts.mapM fun p => alone (compile p) f.target).map fun nodes =>
        (⟨f.target, nodes⟩, ⟨f :: outer, issued⟩) := by
  simp only [inScope, bind, StateT.bind, current, Scopes.current, scopes, push, Scopes.push,
    Except.map, Except.bind, each_transparent h]
  cases parts.mapM fun p => alone (compile p) f.target with
  | error e => rfl
  | ok nodes =>
    simp [pop, Scopes.pop, Except.map, pure_apply, Frame.container,
      StateT.bind, bind, Except.bind]

theorem transparent_inScope {compile : α → Compile Intent} (h : ∀ p, Transparent (compile p))
    (parts : List α) : Transparent (inScope parts compile) := by
  intro f outer issued
  rw [alone, inScope_run h, inScope_run h]
  cases parts.mapM fun p => alone (compile p) f.target <;> rfl

theorem alone_inScope {compile : α → Compile Intent} (h : ∀ p, Transparent (compile p))
    (parts : List α) (target : Bytes) :
    alone (inScope parts compile) target =
      (parts.mapM fun p => alone (compile p) target).map (Container.mk target) := by
  rw [alone, inScope_run h]
  cases parts.mapM fun p => alone (compile p) target <;> rfl

theorem alone_inScope_ok {compile : α → Compile Intent} (h : ∀ p, Transparent (compile p))
    {parts : List α} {target : Bytes} {c : Container Intent}
    (hc : alone (inScope parts compile) target = .ok c) :
    ∃ nodes, (parts.mapM fun p => alone (compile p) target) = .ok nodes ∧ c = ⟨target, nodes⟩ := by
  rw [alone_inScope h] at hc
  obtain ⟨nodes, hnodes, rfl⟩ := exists_of_map_ok hc
  exact ⟨nodes, hnodes, rfl⟩

theorem transparent_target {k : Bytes → Compile β} (hk : ∀ target, Transparent (k target)) :
    Transparent (current >>= fun f => k f.target) := by
  intro f outer issued
  exact hk f.target f outer issued

theorem alone_target (k : Bytes → Compile β) (target : Bytes) :
    alone (current >>= fun f => k f.target) target = alone (k target) target := rfl

theorem transparent_textPart (p : Bool × Part × Bool) : Transparent (textPart p) := by
  obtain ⟨after, p, before⟩ := p
  cases p <;> intro f outer issued <;> rfl

theorem transparent_text (parts : List Part) : Transparent (text parts) :=
  transparent_bind (transparent_inScope transparent_textPart _) fun _ => transparent_pure _

theorem transparent_literalPart (refusal : TemplateError) (p : Part) :
    Transparent (literalPart refusal p) := by
  cases p with
  | absent => exact transparent_pure _
  | raw value => exact transparent_pure _
  | code block =>
    rw [literalPart]
    split
    · exact transparent_fail _
    · exact transparent_pure _
  | misplaced kind => exact transparent_fail _

theorem transparent_namePart (a : Attribute) (p : Part) : Transparent (namePart a p) :=
  transparent_literalPart _ p

theorem transparent_valuePart (a : Attribute) (p : Part) : Transparent (valuePart a p) :=
  transparent_literalPart _ p

theorem transparent_handlerPart (a : Attribute) (p : Part) : Transparent (handlerPart a p) := by
  cases p with
  | absent => exact transparent_fail _
  | raw value => exact transparent_pure _
  | code block =>
    rw [handlerPart]
    split
    · exact transparent_fail _
    · exact transparent_pure _
  | misplaced kind => exact transparent_fail _

theorem transparent_handler (a : Attribute) : Transparent (handler a) := by
  unfold handler
  split
  · exact transparent_fail _
  split
  · exact transparent_fail _
  · exact transparent_inScope (transparent_handlerPart a) _
  · exact transparent_fail _

/-- An attribute of the node `target`. -/
def attributeOf (a : Attribute) (parts : List Part) (target : Bytes) : Compile Intent :=
  match attrName parts with
  | .event parts => do
    let name ← inScope parts (namePart a)
    if name.nodes.all Intent.isIgnore then
      fail (.invalidAttribute a.pos a.source .missingEventName)
    else
      return .attr target .event (some name) (some (← handler a))
  | .plain parts => do
    let name ← inScope parts (namePart a)
    match a.value with
    | none => return .attr target .flag (some name) none
    | some value =>
      return .attr target .value (some name) (some (← inScope value.parts (valuePart a)))

theorem namedAttribute_eq (a : Attribute) (parts : List Part) :
    namedAttribute a parts = current >>= fun f => attributeOf a parts f.target := rfl

theorem transparent_attributeOf (a : Attribute) (parts : List Part) (target : Bytes) :
    Transparent (attributeOf a parts target) := by
  unfold attributeOf
  split
  · refine transparent_bind (transparent_inScope (transparent_namePart a) _) fun name => ?_
    split
    · exact transparent_fail _
    · exact transparent_bind (transparent_handler a) fun _ => transparent_pure _
  · refine transparent_bind (transparent_inScope (transparent_namePart a) _) fun name => ?_
    split
    · exact transparent_pure _
    · exact transparent_bind (transparent_inScope (transparent_valuePart a) _) fun _ =>
        transparent_pure _

theorem transparent_namedAttribute (a : Attribute) (parts : List Part) :
    Transparent (namedAttribute a parts) :=
  transparent_target (transparent_attributeOf a parts)

theorem transparent_attr (a : Option Attribute) : Transparent (attr a) := by
  unfold attr
  split
  · exact transparent_pure _
  · split
    · exact transparent_fail _
    · exact transparent_fail _
    · exact transparent_namedAttribute _ _

/-- The attributes of an opening tag that creates `ref`, in its own scope. -/
def tagSetup (t : Tag) (ref : Bytes) : Compile (Container Intent) :=
  match t.attrs with
  | none => pure ⟨ref, []⟩
  | some attrs => inScope attrs attr

/-- The pieces of the name of an opening tag and its attributes. -/
def tagHead (t : Tag) (name : List Part) (ref : Bytes) :
    Compile (Container Intent × Container Intent) := do
  let tag ← inScope name (literalPart (.unreadable t.pos .statementInTagName))
  return (tag, ← tagSetup t ref)

/-- The intent that an opening tag with the given head gives rise to. -/
def creation (ref : Bytes) (head : Container Intent × Container Intent) : Intent :=
  .create ref (some head.1) (some head.2)

theorem transparent_tagSetup (t : Tag) (ref : Bytes) : Transparent (tagSetup t ref) := by
  unfold tagSetup
  split
  · exact transparent_pure _
  · exact transparent_inScope transparent_attr _

theorem transparent_tagHead (t : Tag) (name : List Part) (ref : Bytes) :
    Transparent (tagHead t name ref) :=
  transparent_bind (transparent_inScope (transparent_literalPart _) _) fun _ =>
    transparent_bind (transparent_tagSetup t ref) fun _ => transparent_pure _

theorem transparent_node {options : CompileOptions} {n : Node} (h : ∀ t, n ≠ .tag t) :
    Transparent (node options n) := by
  cases n with
  | tag t => exact absurd rfl (h t)
  | text parts => exact transparent_text parts
  | raw value => exact transparent_text [.raw value]
  | absent | code | comment => exact transparent_pure _
  | doctype | misplaced => exact transparent_fail _

theorem openTag_eq (options : CompileOptions) (t : Tag) (name : List Part) :
    openTag options t name = (do
      let ref ← freshRef options (tagStem name)
      pushElement ref t.source t.pos
      let head ← tagHead t name ref
      if isVoidName name then
        append (creation ref head)
        return .container (← pop).container
      else
        return creation ref head) := by
  unfold openTag tagHead tagSetup creation
  cases t.attrs <;> simp only [bind_assoc, pure_bind]

theorem openTag_run (options : CompileOptions) (t : Tag) (name : List Part) (scopes : Scopes)
    (issued : List Bytes) (ref : Bytes)
    (href : ref = options.ref (elementName options.elementPrefix issued (tagStem name))) :
    openTag options t name ⟨scopes, issued⟩ =
      (alone (tagHead t name ref) ref).map fun head =>
        if isVoidName name then
          (.container ⟨ref, [creation ref head]⟩, ⟨scopes, tagStem name :: issued⟩)
        else
          (creation ref head,
            ⟨{ target := ref, tag := t.source, pos := t.pos } :: scopes,
              tagStem name :: issued⟩) := by
  have head := transparent_tagHead t name ref { target := ref, tag := t.source, pos := t.pos }
    scopes (tagStem name :: issued)
  rw [openTag_eq]
  simp only [bind, StateT.bind, freshRef, pushElement, Scopes.pushElement, Except.bind, ← href]
  rw [head]
  cases alone (tagHead t name ref) ref with
  | error e => rfl
  | ok parts =>
    cases hv : isVoidName name <;> rfl

end DomTemplate.Compile
