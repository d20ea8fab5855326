import DomTemplate.Proofs.Rebuild

/-! Translating a document line by line. Once the opening tags have their references, a
translation from left to right needs nothing but the stack of the open ones: an opening tag
gives its own lines and is pushed unless it is void, a closing tag gives none and pops, and
text goes to the top. Compiling and exporting comes to the same lines. Their order follows: an
element is created, gets its attributes and is appended, once, before anything goes into it. -/

namespace DomTemplate
open Compile

def Node.opened? : Node → Option (List Part)
  | tag t => if t.closing then none else some (t.name.getD [])
  | _ => none

/-- The children with the references that opening tags get, after elements of the stems
`issued`; any other child gets none. -/
def labelled (options : CompileOptions) (issued : List Bytes) : List Node → List (Node × Bytes)
  | [] => []
  | n :: ns =>
    match n.opened? with
    | some name => (n, nextRef options issued name) :: labelled options (tagStem name :: issued) ns
    | none => (n, []) :: labelled options issued ns

/-- The stack after a child that has the reference `ref`. -/
def stackAfter (stack : List Bytes) (ref : Bytes) : Node → List Bytes
  | .tag t =>
    if t.closing then stack.tail
    else if isVoidName (t.name.getD []) then stack else ref :: stack
  | _ => stack

/-- The operations of a child that has the reference `ref`, where content goes to `top`. -/
def childOps (top ref : Bytes) : Node → List DomOp
  | .tag t => if t.closing then [] else openingOps top ref t
  | .text parts => textOps top parts
  | .raw value => textOps top [.raw value]
  | .code block => block.ops top
  | .absent | .comment .. | .doctype .. | .misplaced _ => []

/-- One pass over the children with their references, which keeps the stack of open elements. -/
def translate (root : Bytes) (stack : List Bytes) : List (Node × Bytes) → List DomOp
  | [] => []
  | (n, ref) :: rest =>
    childOps (stack.headD root) ref n ++ translate root (stackAfter stack ref n) rest

theorem Pass.run_translate {options : CompileOptions} {root : Bytes} (p : Pass) (ns : List Node) :
    (p.run options root ns).2 = translate root p.refs (labelled options p.issued ns) := by
  induction ns generalizing p with
  | nil => rfl
  | cons n ns ih =>
    rw [run]
    cases n with
    | tag t =>
      cases closing : t.closing with
      | true =>
        simp only [step_closing closing, labelled, Node.opened?, closing, if_true, translate,
          childOps, stackAfter, ih]
      | false =>
        simp only [step_opening closing, labelled, Node.opened?, closing, Bool.false_eq_true,
          if_false, translate, childOps, stackAfter, ih]
        rfl
    | text | raw | code | absent | comment | doctype | misplaced =>
      simp only [step, labelled, Node.opened?, translate, childOps, stackAfter, ih, Pass.top]

namespace DomOp

/-- The operation is about the making of `ref`: it creates it, sets something on it or appends
it. -/
def makes (ref : Bytes) : DomOp → Prop
  | create r _ | appendChild _ r | setAttribute r _ _ | setFlag r _ | listen r _ _ => ref = r
  | addText .. | run _ => False

def fills (ref : Bytes) : DomOp → Prop
  | appendChild r _ | addText r _ => ref = r
  | create .. | setAttribute .. | setFlag .. | listen .. | run _ => False

end DomOp

/-- In `ops` an element called `ref` is created, given its attributes and appended, in this
order. Nothing before that is about `ref`, unless `ref` is one of `known` already, and nothing
after it makes `ref` again. -/
def Introduced (known : List Bytes) (ops : List DomOp) (ref : Bytes) : Prop :=
  ∃ (before : List DomOp) (tag : List Fragment) (settings : List AttrSetting) (parent : Bytes)
    (after : List DomOp),
    ops = before ++ .create ref tag :: (settings.map (AttrSetting.op ref) ++
      .appendChild parent ref :: after) ∧
    (∀ op ∈ before, ¬op.makes ref ∧ (op.fills ref → ref ∈ known)) ∧
    ∀ op ∈ after, ¬op.makes ref

theorem Introduced.after {known known' : List Bytes} {ops first : List DomOp} {ref : Bytes}
    (h : Introduced known ops ref)
    (clear_first : ∀ op ∈ first, ¬op.makes ref ∧ (op.fills ref → ref ∈ known'))
    (fewer : ref ∈ known → ref ∈ known') : Introduced known' (first ++ ops) ref := by
  obtain ⟨before, tag, settings, parent, later, rfl, clear, once⟩ := h
  refine ⟨first ++ before, tag, settings, parent, later, (List.append_assoc ..).symm, ?_, once⟩
  intro op mem
  rcases List.mem_append.mp mem with mem | mem
  · exact clear_first op mem
  · exact ⟨(clear op mem).1, fun fills => fewer ((clear op mem).2 fills)⟩

section Order
variable {options : CompileOptions} {root top ref r : Bytes}

/-- An opening tag makes its own element and puts it into the innermost open one. -/
theorem mem_openingOps {t : Tag} {op : DomOp} (h : op ∈ openingOps top ref t) :
    (op.makes r → r = ref) ∧ (op.fills r → r = top) := by
  rw [openingOps, List.mem_cons, List.mem_append, List.mem_map, List.mem_singleton] at h
  rcases h with rfl | ⟨s, -, rfl⟩ | rfl
  · exact ⟨id, False.elim⟩
  · cases s <;> exact ⟨id, False.elim⟩
  · exact ⟨id, id⟩

theorem mem_codeOps {block : Code} {op : DomOp} (h : op ∈ block.ops top) :
    ¬op.makes r ∧ (op.fills r → r = top) := by
  unfold Code.ops at h
  split at h
  · rw [List.mem_singleton] at h
    subst h
    exact ⟨id, False.elim⟩
  · rw [List.mem_singleton] at h
    subst h
    exact ⟨id, id⟩
  · cases h
  · cases h

theorem mem_textOps {parts : List Part} {op : DomOp} (h : op ∈ textOps top parts) :
    ¬op.makes r ∧ (op.fills r → r = top) := by
  obtain ⟨⟨after, p, before⟩, -, h⟩ := List.mem_flatMap.mp h
  cases p with
  | raw value =>
    rw [textPartOps, Option.mem_toList, Option.map_eq_some_iff] at h
    obtain ⟨text, -, rfl⟩ := h
    exact ⟨id, id⟩
  | code block => exact mem_codeOps h
  | absent | misplaced => cases h

/-- Only an opening tag makes an element, its own; any other child fills the innermost one. -/
theorem mem_childOps {n : Node} {op : DomOp} (h : op ∈ childOps top ref n) :
    (op.makes r → r = ref ∧ n.opened? ≠ none) ∧ (op.fills r → r = top) := by
  cases n with
  | tag t =>
    rw [childOps] at h
    cases closing : t.closing with
    | true => rw [closing, if_pos rfl] at h; cases h
    | false =>
      rw [closing, if_neg Bool.false_ne_true] at h
      have own := mem_openingOps (r := r) h
      exact ⟨fun makes => ⟨own.1 makes, by simp [Node.opened?, closing]⟩, own.2⟩
  | text | raw => exact ⟨fun makes => absurd makes (mem_textOps h).1, (mem_textOps h).2⟩
  | code block => exact ⟨fun makes => absurd makes (mem_codeOps h).1, (mem_codeOps h).2⟩
  | absent | comment | doctype | misplaced => cases h

theorem mem_stackAfter {n : Node} {stack : List Bytes} (h : r ∈ stackAfter stack ref n) :
    r ∈ stack ∨ (r = ref ∧ n.opened? ≠ none) := by
  cases n with
  | tag t =>
    rw [stackAfter] at h
    split at h
    · exact .inl (List.mem_of_mem_tail h)
    · rename_i opening
      split at h
      · exact .inl h
      · rcases List.mem_cons.mp h with same | mem
        · exact .inr ⟨same, by simp [Node.opened?, opening]⟩
        · exact .inl mem
  | _ => exact .inl h

/-- The first child of a labelled list has the next reference of its name, and the children
after it are labelled with that name given out. -/
theorem labelled_cons (options : CompileOptions) (issued : List Bytes) (n : Node) (ns : List Node) :
    ∃ ref issued', labelled options issued (n :: ns) = (n, ref) :: labelled options issued' ns ∧
      issued <:+ issued' ∧ ∀ name, n.opened? = some name →
        ref = nextRef options issued name ∧ issued' = tagStem name :: issued := by
  rw [labelled]
  cases opened : n.opened? with
  | none => exact ⟨[], issued, rfl, List.suffix_rfl, by simp⟩
  | some name => exact ⟨_, _, rfl, List.suffix_cons _ _, by simp⟩

end Order

theorem Document.render_lines {options : CompileOptions} {doc : Document} {c : Container Intent}
    (target : Target) (document : Bytes) (mode : TextMode)
    (compiled : doc.compile options = .ok c) :
    let e := Exporter.withDefaults target options.root document mode
    e.render (.container c) =
      .ok (e.lines (translate e.root [] (labelled options [] doc.children))).trim := by
  intro e
  have meant := (doc.ops_compile compiled).1
  rw [Pass.run_translate] at meant
  rw [Exporter.render]
  exact congrArg (Except.map fun ops => (e.lines ops).trim) meant

end DomTemplate
