import DomTemplate.Proofs.Transparent
import Mathlib.Data.List.Basic

/-! What compiling one child of a document does to the scopes. There are four ways to
succeed: a child that is no tag adds one intent to the innermost scope, a void element
adds its container there, any other opening tag opens a scope that holds what it creates,
and a closing tag closes the innermost scope and puts its container into the scope around
it. Everything about whole documents follows from these by induction on the children. -/

namespace DomTemplate
namespace Compile

/-- Compile a child and put its intent where it goes. -/
def place (options : CompileOptions) (n : Node) : Compile Unit := do
  append (← node options n)

theorem each_cons (options : CompileOptions) (n : Node) (ns : List Node) :
    each (node options) (n :: ns) = place options n >>= fun _ => each (node options) ns := by
  simp only [each, place, bind_assoc]

/-- The reference of the next element called `name`. -/
def nextRef (options : CompileOptions) (issued : List Bytes) (name : List Part) : Bytes :=
  options.ref (elementName options.elementPrefix issued (tagStem name))

/-- The frame that an opening tag leaves open. -/
def elementFrame (t : Tag) (ref : Bytes) (head : Container Intent × Container Intent) : Frame where
  target := ref
  tag := t.source
  pos := t.pos
  nodes := [creation ref head]

/-- Placing a child takes one state to another. -/
inductive Placed (options : CompileOptions) : Node → CompileState → CompileState → Prop where
  | leaf {n : Node} {f : Frame} {outer : Scopes} {issued : List Bytes} {i : Intent}
      (plain : ∀ t, n ≠ .tag t) (result : alone (node options n) f.target = .ok i) :
      Placed options n ⟨f :: outer, issued⟩ ⟨f.append i :: outer, issued⟩
  | void {t : Tag} {name : List Part} {f : Frame} {outer : Scopes} {issued : List Bytes}
      {ref : Bytes} {head : Container Intent × Container Intent}
      (opening : t.closing = false) (named : t.name = some name) (nonempty : name ≠ [])
      (void : isVoidName name = true) (fresh : ref = nextRef options issued name)
      (result : alone (tagHead t name ref) ref = .ok head) :
      Placed options (.tag t) ⟨f :: outer, issued⟩
        ⟨f.append (.container ⟨ref, [creation ref head]⟩) :: outer, tagStem name :: issued⟩
  | opened {t : Tag} {name : List Part} {scopes : Scopes} {issued : List Bytes} {ref : Bytes}
      {head : Container Intent × Container Intent}
      (opening : t.closing = false) (named : t.name = some name) (nonempty : name ≠ [])
      (void : isVoidName name = false) (fresh : ref = nextRef options issued name)
      (result : alone (tagHead t name ref) ref = .ok head) :
      Placed options (.tag t) ⟨scopes, issued⟩
        ⟨elementFrame t ref head :: scopes, tagStem name :: issued⟩
  | closed {t : Tag} {f g : Frame} {outer : Scopes} {issued : List Bytes}
      (closing : t.closing = true) (element : f.isElement = true) (same : f.tag = t.source) :
      Placed options (.tag t) ⟨f :: g :: outer, issued⟩
        ⟨g.append (.container f.container) :: outer, issued⟩

section
variable {options : CompileOptions} {t : Tag} {name : List Part} {issued : List Bytes}

theorem tag_opening (opening : t.closing = false) (named : t.name = some name)
    (nonempty : name ≠ []) : tag options t = openTag options t name := by
  rw [tag, opening, named]
  cases name with
  | nil => exact absurd rfl nonempty
  | cons p ps => rfl

/-- Placing an opening tag succeeds as its head does. -/
theorem place_opening (f : Frame) (outer : Scopes) (opening : t.closing = false)
    (named : t.name = some name) (nonempty : name ≠ []) :
    place options (.tag t) ⟨f :: outer, issued⟩ =
      (alone (tagHead t name (nextRef options issued name)) (nextRef options issued name)).map
        fun head => ((),
          if isVoidName name then
            ⟨f.append (.container ⟨nextRef options issued name,
              [creation (nextRef options issued name) head]⟩) :: outer, tagStem name :: issued⟩
          else
            ⟨elementFrame t (nextRef options issued name) head :: f :: outer,
              tagStem name :: issued⟩) := by
  simp only [place, bind, StateT.bind, node]
  rw [tag_opening opening named nonempty,
    openTag_run options t name (f :: outer) issued (nextRef options issued name) rfl]
  cases alone (tagHead t name (nextRef options issued name)) (nextRef options issued name) with
  | error e => rfl
  | ok head => cases h : isVoidName name <;> rfl

theorem place_leaf {n : Node} (plain : ∀ t, n ≠ .tag t) (f : Frame) (outer : Scopes) :
    place options n ⟨f :: outer, issued⟩ =
      (alone (node options n) f.target).map fun i => ((), ⟨f.append i :: outer, issued⟩) := by
  simp only [place, bind, StateT.bind, transparent_node plain f outer issued]
  cases alone (node options n) f.target <;> rfl

theorem place_matching {f g : Frame} {outer : Scopes} (closing : t.closing = true)
    (element : f.isElement = true) (same : f.tag = t.source) :
    place options (.tag t) ⟨f :: g :: outer, issued⟩ =
      .ok ((), ⟨g.append (.container f.container) :: outer, issued⟩) := by
  simp [place, node, tag, closing, closeTag, bind, StateT.bind, current, Scopes.current,
    Except.map, Except.bind, element, same, pop, Scopes.pop, pure_apply, append, Scopes.append]

/-- A closing tag that does not match the innermost scope is refused. -/
theorem place_mismatched {f : Frame} {outer : Scopes} (closing : t.closing = true)
    (differs : ¬(f.isElement = true ∧ f.tag = t.source)) :
    place options (.tag t) ⟨f :: outer, issued⟩ =
      .error (.unbalancedTag t.pos t.source
        ((Scopes.openElement? (f :: outer)).map Frame.tag |>.getD [])
        (closingFault (f :: outer) t.source)) := by
  simp only [place, node, tag, closing, if_true, closeTag, bind, StateT.bind, current,
    Scopes.current, Except.map, Except.bind, differs, if_false, scopes, fail]

end

/-- Every way in which placing a child succeeds. -/
theorem placed_of_place {options : CompileOptions} {n : Node} {f : Frame} {outer : Scopes}
    {issued : List Bytes} {s : CompileState}
    (h : place options n ⟨f :: outer, issued⟩ = .ok ((), s)) :
    Placed options n ⟨f :: outer, issued⟩ s := by
  by_cases plain : ∀ t, n ≠ .tag t
  · rw [place_leaf plain] at h
    obtain ⟨i, result, same⟩ := exists_of_map_ok h
    cases same
    exact .leaf plain result
  · obtain ⟨t, rfl⟩ : ∃ t, n = .tag t := by simpa using plain
    cases closing : t.closing with
    | true =>
      by_cases same : f.isElement = true ∧ f.tag = t.source
      · cases outer with
        -- nothing stands around the document, so that no tag closes it
        | nil =>
          simp [place, node, tag, closing, closeTag, bind, StateT.bind, current, Scopes.current,
            Except.map, Except.bind, same, pop, Scopes.pop, pure_apply, append,
            Scopes.append] at h
        | cons g outer =>
          rw [place_matching closing same.1 same.2] at h
          cases h
          exact .closed closing same.1 same.2
      · rw [place_mismatched closing same] at h
        cases h
    | false =>
      have unnamed : tag options t = fail (.unrecognizedNode t.pos .tagWithoutName) →
          False := by
        intro refused
        simp [place, node, refused, fail, bind, StateT.bind, Except.bind] at h
      cases named : t.name with
      | none => exact absurd (by simp [tag, closing, named]) unnamed
      | some name =>
        by_cases nonempty : name = []
        · exact absurd (by simp [tag, closing, named, nonempty]) unnamed
        · rw [place_opening f outer closing named nonempty] at h
          obtain ⟨head, result, same⟩ := exists_of_map_ok h
          cases void : isVoidName name with
          | true =>
            rw [void, if_pos rfl] at same
            cases same
            exact .void closing named nonempty void rfl result
          | false =>
            rw [void, if_neg Bool.false_ne_true] at same
            cases same
            exact .opened closing named nonempty void rfl result

/-- An element that is open: its reference, its tag as written, and where that stands. -/
structure OpenElement where
  ref : Bytes
  tag : Bytes
  pos : Pos
  deriving DecidableEq, Repr

end Compile

def Frame.element (f : Frame) : Compile.OpenElement := ⟨f.target, f.tag, f.pos⟩

namespace Compile

/-- Scopes in which the given elements are open, innermost first: a frame for each of them,
then the frame of the document, then the root frame, which nothing goes into. -/
inductive Standing (root : Bytes) : List OpenElement → Scopes → Prop where
  | document {d : Frame} (target : d.target = root) (transparent : d.tag = []) :
      Standing root [] [d, { target := root }]
  | element {f : Frame} {opened : List OpenElement} {outer : Scopes}
      (within : Standing root opened outer) : Standing root (f.element :: opened) (f :: outer)

namespace Standing
variable {root : Bytes} {opened : List OpenElement} {f g : Frame} {outer : Scopes}

theorem target_eq (h : Standing root opened (f :: outer)) :
    f.target = (opened.map OpenElement.ref).headD root := by
  cases h with
  | document target => exact target
  | element => rfl

theorem append (h : Standing root opened (f :: outer)) (n : Intent) :
    Standing root opened (f.append n :: outer) := by
  cases h with
  | document target transparent => exact .document target transparent
  | element within => exact .element (f := f.append n) within

/-- Closing an element leaves the elements around it open. -/
theorem close (h : Standing root opened (f :: g :: outer)) (element : f.isElement = true) :
    Standing root opened.tail (g :: outer) := by
  cases h with
  | document target transparent => simp [Frame.isElement, transparent] at element
  | element within => exact within

theorem ne_nil {scopes : Scopes} (h : Standing root opened scopes) :
    ∃ f outer, scopes = f :: outer := by
  cases h <;> exact ⟨_, _, rfl⟩

theorem length_eq {scopes : Scopes} (h : Standing root opened scopes) :
    scopes.length = opened.length + 2 := by
  induction h with
  | document => rfl
  | element within ih => simp only [List.length_cons, ih]

end Standing

/-- The children after the first are placed from where the first left off. -/
theorem each_cons_ok {options : CompileOptions} {n : Node} {ns : List Node} {f : Frame}
    {outer : Scopes} {issued : List Bytes} {s' : CompileState}
    (h : each (node options) (n :: ns) ⟨f :: outer, issued⟩ = .ok ((), s')) :
    ∃ s, Placed options n ⟨f :: outer, issued⟩ s ∧ each (node options) ns s = .ok ((), s') := by
  rw [each_cons] at h
  obtain ⟨⟨⟨⟩, s⟩, first, rest⟩ := exists_of_bind_ok h
  exact ⟨s, placed_of_place first, rest⟩

end Compile

/-- The reference that a document is mounted at. -/
def CompileOptions.mount (options : CompileOptions) : Bytes :=
  if options.root.isEmpty then defaultRoot else options.root

namespace Compile
variable {options : CompileOptions}

/-- The state before the first child of a document. -/
def initial (options : CompileOptions) : CompileState :=
  ⟨[{ target := options.mount }, { target := options.mount }], []⟩

theorem standing_initial (options : CompileOptions) :
    Standing options.mount [] (initial options).scopes := .document rfl rfl

/-- The end of a document: its own scope is the innermost, or a tag is left open. -/
def finish (s : CompileState) : Except TemplateError (Container Intent) :=
  if s.scopes.length ≠ 2 then
    match s.scopes.openElement? with
    | some f => .error (.unbalancedTag f.pos f.tag [] .unclosed)
    | none => .error (.unevenScope s.scopes.length 2)
  else s.scopes.pop.map fun (f, _) => f.container

theorem compile_eq (options : CompileOptions) (doc : Document) :
    doc.compile options =
      (each (node options) doc.children (initial options)).bind fun r => finish r.2 := by
  simp only [Document.compile, inScope, bind, StateT.bind, current, Scopes.ofRoot,
    Scopes.current, Except.map, Except.bind, scopes, push, Scopes.push, List.length_singleton]
  rw [← CompileOptions.mount, ← initial]
  cases each (node options) doc.children (initial options) with
  | error e => rfl
  | ok result =>
    obtain ⟨⟨⟩, s⟩ := result
    by_cases depth : s.scopes.length = 2
    · simp only [depth, finish]
      cases hpop : s.scopes.pop <;>
        simp [pop, hpop, bind, StateT.bind, Except.map, Except.bind, pure_apply]
    · simp only [finish, ne_eq, depth, not_false_eq_true, if_true]
      cases s.scopes.openElement? <;> rfl

/-- A document that compiles leaves its own frame, and that frame is the result. -/
theorem compile_ok {doc : Document} {c : Container Intent} (h : doc.compile options = .ok c) :
    ∃ d r issued, each (node options) doc.children (initial options) = .ok ((), ⟨[d, r], issued⟩) ∧
      c = d.container := by
  rw [compile_eq] at h
  obtain ⟨⟨⟨⟩, scopes, issued⟩, run, ended⟩ := exists_of_bind_ok h
  rw [finish] at ended
  split at ended
  · split at ended <;> cases ended
  · rename_i depth
    obtain ⟨d, r, rfl⟩ := List.length_eq_two.mp (not_not.mp depth)
    cases ended
    exact ⟨d, r, issued, run, rfl⟩

end Compile
end DomTemplate
