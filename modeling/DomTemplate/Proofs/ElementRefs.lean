import DomTemplate.Proofs.Shape
import DomTemplate.Proofs.Translation

/-! The references of created elements. Read in pre-order, the elements of a compiled document
stand in the order of their opening tags, however their containers were closed: the intents held
by the open scopes, outermost first, are at every moment in document order. Each reference is
therefore that of its tag's stem with the number of the tag among those of the stem. -/

namespace DomTemplate
open Ascii Compile

namespace Intent

mutual

/-- The references of all elements created, in pre-order. -/
def created : Intent → List Bytes
  | create ref tag setup => ref :: (createdIn? tag ++ createdIn? setup)
  | container c => createdIn c
  | attr _ _ name value => createdIn? name ++ createdIn? value
  | absent | ignore | content _ | expression _ | statement _ => []

def createdIn? : Option (Container Intent) → List Bytes
  | none => []
  | some c => createdIn c

def createdIn : Container Intent → List Bytes
  | ⟨_, nodes⟩ => createdOf nodes

def createdOf : List Intent → List Bytes
  | [] => []
  | n :: ns => created n ++ createdOf ns

end

theorem createdOf_append (ms ns : List Intent) :
    createdOf (ms ++ ns) = createdOf ms ++ createdOf ns := by
  induction ms with
  | nil => rfl
  | cons m ms ih => rw [List.cons_append, createdOf, createdOf, ih, List.append_assoc]

theorem elementsOf_append (ms ns : List Intent) :
    elementsOf (ms ++ ns) = elementsOf ms + elementsOf ns := by
  induction ms with
  | nil => rw [List.nil_append, elementsOf, Nat.zero_add]
  | cons m ms ih => rw [List.cons_append, elementsOf, elementsOf, ih, Nat.add_assoc]

/-- No element is created, at any depth. -/
structure Childless (n : Intent) : Prop where
  created : n.created = []
  elements : n.elements = 0

theorem Childless.of_nodes {c : Container Intent} (h : ∀ n ∈ c.nodes, n.Childless) :
    (container c).Childless := by
  obtain ⟨target, nodes⟩ := c
  suffices all : createdOf nodes = [] ∧ elementsOf nodes = 0 from ⟨all.1, all.2⟩
  induction nodes with
  | nil => exact ⟨rfl, rfl⟩
  | cons n ns ih =>
    rw [List.forall_mem_cons] at h
    obtain ⟨created, elements⟩ := ih h.2
    rw [createdOf, elementsOf, created, elements, h.1.created, h.1.elements]
    exact ⟨rfl, rfl⟩

theorem IsText.childless {n : Intent} (h : n.IsText) : n.Childless := by
  induction h with
  | ignore | content | expression => exact ⟨rfl, rfl⟩
  | container nodes ih => exact .of_nodes ih

theorem IsRun.childless {n : Intent} (h : n.IsRun) : n.Childless := by
  induction h with
  | text h => exact h.childless
  | statement => exact ⟨rfl, rfl⟩
  | container nodes ih => exact .of_nodes ih

theorem IsSetting.childless {n : Intent} (h : n.IsSetting) : n.Childless := by
  cases h with
  | ignore => exact ⟨rfl, rfl⟩
  | flag target text =>
    refine ⟨?_, rfl⟩
    rw [created, createdIn?, createdIn?, List.append_nil]
    exact text.childless.created
  | valued target other text shown =>
    refine ⟨?_, rfl⟩
    have name := text.childless.created
    have value := shown.childless.created
    rw [created] at name value
    simp [created, createdIn?, name, value]

end Intent

/-- The intents held by open scopes, outermost first. -/
def Scopes.intents : Scopes → List Intent
  | [] => []
  | f :: outer => intents outer ++ f.nodes

namespace Compile
open Intent
variable {options : CompileOptions}

/-- An opening tag creates its own element and nothing in its name or its attributes. -/
theorem created_creation {t : Tag} {name : List Part} {ref : Bytes}
    {head : Container Intent × Container Intent} (h : alone (tagHead t name ref) ref = .ok head) :
    (creation ref head).created = [ref] := by
  obtain ⟨text, settings⟩ := isShaped_head h
  have named : createdIn head.1 = [] := text.childless.created
  have attributes : createdIn head.2 = [] :=
    (Childless.of_nodes fun n mem => (settings n mem).childless).created
  simp [creation, created, createdIn?, named, attributes]

end Compile

/-- The references of elements with the given names, after elements of the stems `issued`. -/
def refsOf (options : CompileOptions) (issued : List Bytes) : List (List Part) → List Bytes
  | [] => []
  | name :: names => nextRef options issued name :: refsOf options (tagStem name :: issued) names

namespace Compile
open Intent
variable {options : CompileOptions} {root : Bytes}

/-- Placing a child adds the element that it opens, if any, at the end. -/
theorem Placed.created {n : Node} {s s' : CompileState} (h : Placed options n s s') :
    createdOf s'.scopes.intents =
        createdOf s.scopes.intents ++ refsOf options s.issued n.opened?.toList ∧
      elementsOf s'.scopes.intents = elementsOf s.scopes.intents + n.opened?.toList.length ∧
      s'.issued = n.opened?.toList.map tagStem ++ s.issued := by
  cases h with
  | @leaf n f outer issued i plain result =>
    have unopened : n.opened? = none := by
      cases n with
      | tag t => exact absurd rfl (plain t)
      | _ => rfl
    have childless := (isRun_leaf plain result).childless
    simp [unopened, Scopes.intents, Frame.append, createdOf_append, elementsOf_append, createdOf,
      elementsOf, childless.created, childless.elements, refsOf]
  | @void t name f outer issued ref head opening named nonempty void fresh result =>
    have made := created_creation result
    have one : (creation ref head).elements = 1 := rfl
    simp [Node.opened?, opening, named, Scopes.intents, Frame.append, createdOf_append,
      elementsOf_append, createdOf, elementsOf, Intent.created, createdIn, Intent.elements,
      elementsIn, refsOf, made, one, ← fresh, Nat.add_assoc]
  | @opened t name scopes issued ref head opening named nonempty void fresh result =>
    have made := created_creation result
    have one : (creation ref head).elements = 1 := rfl
    simp [Node.opened?, opening, named, Scopes.intents, elementFrame, createdOf_append,
      elementsOf_append, createdOf, elementsOf, refsOf, made, one, ← fresh]
  | @closed t f g outer issued closing element same =>
    simp [Node.opened?, closing, Scopes.intents, Frame.append, Frame.container, createdOf_append,
      elementsOf_append, createdOf, elementsOf, Intent.created, createdIn, Intent.elements,
      elementsIn, refsOf]

/-- A run adds the elements of its opening tags in their order. -/
theorem each_created {ns : List Node} {s s' : CompileState}
    (h : each (node options) ns s = .ok ((), s')) (nonempty : ∃ f outer, s.scopes = f :: outer) :
    createdOf s'.scopes.intents =
        createdOf s.scopes.intents ++ refsOf options s.issued (ns.filterMap Node.opened?) ∧
      elementsOf s'.scopes.intents =
        elementsOf s.scopes.intents + (ns.filterMap Node.opened?).length := by
  induction ns generalizing s with
  | nil =>
    cases h
    simp [refsOf]
  | cons n ns ih =>
    obtain ⟨scopes, issued⟩ := s
    obtain ⟨f, outer, rfl⟩ := nonempty
    obtain ⟨mid, placed, rest⟩ := each_cons_ok h
    obtain ⟨created, elements, stems⟩ := placed.created
    obtain ⟨created', elements'⟩ := ih rest placed.ne_nil
    rw [created', created, elements', elements, stems]
    cases opened : n.opened? with
    | none => simp [opened, refsOf]
    | some name => simp [opened, refsOf, Nat.add_assoc, Nat.add_comm]

/-- All that a compiled document holds went through its own frame, and nothing is left in the root
frame below it. -/
theorem compile_intents {doc : Document} {c : Container Intent} (h : doc.compile options = .ok c) :
    ∃ s, each (node options) doc.children (initial options) = .ok ((), s) ∧
      c.nodes = s.scopes.intents := by
  obtain ⟨d, r, issued, run, rfl⟩ := compile_ok h
  refine ⟨_, run, ?_⟩
  obtain ⟨opened, standing, -⟩ := each_pass (p := {}) run (standing_initial options) rfl rfl rfl
  cases standing with
  | document target transparent => rfl
  | element within => exact absurd within.length_eq (by simp)

end Compile

section References
variable {options : CompileOptions}

theorem length_refsOf (issued : List Bytes) (names : List (List Part)) :
    (refsOf options issued names).length = names.length := by
  induction names generalizing issued with
  | nil => rfl
  | cons name names ih => rw [refsOf, List.length_cons, List.length_cons, ih]

/-- The number of an element counts the elements of its stem before it. -/
theorem refsOf_getElem? (issued : List Bytes) (names : List (List Part)) (i : Nat) :
    (refsOf options issued names)[i]? = names[i]?.map fun name =>
      options.ref (options.elementPrefix ++ tagStem name ++ [underscore] ++
        Bytes.decimal (((names.take i).map tagStem).count (tagStem name) +
          issued.count (tagStem name) + 1)) := by
  induction names generalizing issued i with
  | nil => rfl
  | cons first names ih =>
    cases i with
    | zero => simp [refsOf, nextRef, elementName]
    | succ i =>
      rw [refsOf, List.getElem?_cons_succ, List.getElem?_cons_succ, ih]
      congr 1
      funext name
      rw [List.take_succ_cons, List.map_cons, List.count_cons, List.count_cons]
      congr 4
      omega

theorem mem_refsOf {issued : List Bytes} {names : List (List Part)} {ref : Bytes}
    (h : ref ∈ refsOf options issued names) :
    ∃ later name, issued <:+ later ∧ ref = nextRef options later name := by
  induction names generalizing issued with
  | nil => cases h
  | cons first names ih =>
    rcases List.mem_cons.mp h with rfl | mem
    · exact ⟨issued, first, List.suffix_rfl, rfl⟩
    · obtain ⟨later, name, older, same⟩ := ih mem
      exact ⟨later, name, (List.suffix_cons _ _).trans older, same⟩

theorem nodup_refsOf (injective : Function.Injective options.ref) (issued : List Bytes)
    (names : List (List Part)) : (refsOf options issued names).Nodup := by
  induction names generalizing issued with
  | nil => exact List.nodup_nil
  | cons first names ih =>
    refine List.nodup_cons.mpr ⟨fun mem => ?_, ih _⟩
    obtain ⟨later, name, older, same⟩ := mem_refsOf mem
    exact Pass.nextRef_fresh injective older same.symm

end References

/-- The references of the elements that a document creates, in pre-order, are those of its opening
tags in document order. The reference of a tag is made of the prefix, its stem and its number among
the tags of that stem, so that different tags have different references, if references of different
names differ, as they do in both languages. -/
theorem Document.created_compile {options : CompileOptions} {doc : Document}
    {c : Container Intent} (compiled : doc.compile options = .ok c) :
    let names := doc.children.filterMap Node.opened?
    let refs := (Intent.container c).created
    (∀ i, refs[i]? = names[i]?.map fun name =>
        options.ref (options.elementPrefix ++ tagStem name ++ [underscore] ++
          Bytes.decimal (((names.take i).map tagStem).count (tagStem name) + 1))) ∧
      refs.length = names.length ∧ (Intent.container c).elements = names.length ∧
      (Function.Injective options.ref → refs.Nodup) ∧
      ∀ t : Target, Function.Injective t.ref := by
  intro names refs
  obtain ⟨target, nodes⟩ := c
  obtain ⟨s, run, intents⟩ := compile_intents compiled
  obtain ⟨created, elements⟩ := each_created run ⟨_, _, rfl⟩
  rw [← intents] at created elements
  have same : refs = refsOf options [] names := created
  have number : (Intent.container ⟨target, nodes⟩).elements = 0 + names.length := elements
  refine ⟨fun i => ?_, ?_, ?_, fun injective => ?_, Target.ref_injective⟩
  · rw [same, refsOf_getElem?]
    rfl
  · rw [same, length_refsOf]
  · rw [number, Nat.zero_add]
  · rw [same]
    exact nodup_refsOf injective [] names

/-- `<a_1><my-el><a></a></my-el><br><my_el></my_el></a_1><{=t}></{=t}>` as children of a document. -/
def similarNames : Document where
  children := [
    .tag ⟨some [.raw (utf8 "a_1")], none, false, false, {}⟩,
    .tag ⟨some [.raw (utf8 "my-el")], none, false, false, {}⟩,
    .tag ⟨some [.raw (utf8 "a")], none, false, false, {}⟩,
    .tag ⟨some [.raw (utf8 "a")], none, true, false, {}⟩,
    .tag ⟨some [.raw (utf8 "my-el")], none, true, false, {}⟩,
    .tag ⟨some [.raw (utf8 "br")], none, false, false, {}⟩,
    .tag ⟨some [.raw (utf8 "my_el")], none, false, false, {}⟩,
    .tag ⟨some [.raw (utf8 "my_el")], none, true, false, {}⟩,
    .tag ⟨some [.raw (utf8 "a_1")], none, true, false, {}⟩,
    .tag ⟨some [.code ⟨.expression, utf8 "t", {}⟩], none, false, false, {}⟩,
    .tag ⟨some [.code ⟨.expression, utf8 "t", {}⟩], none, true, false, {}⟩]

/-- Stems that look like references, names of one stem, and a name without a stem of its own. -/
theorem Document.created_compile_similar :
    let options : CompileOptions := { root := [], elementPrefix := [], ref := Target.ruby.ref }
    ∃ c, similarNames.compile options = .ok c ∧
      (Intent.container c).created = [utf8 "@a_1_1", utf8 "@my_el_1", utf8 "@a_1", utf8 "@br_1",
        utf8 "@my_el_2", utf8 "@el_1"] ∧
      (Intent.container c).elements = 6 ∧ (Intent.container c).created.Nodup := by
  intro options
  have accepted : (similarNames.compile options).toOption.isSome = true := by decide +kernel
  obtain ⟨c, compiled⟩ : ∃ c, similarNames.compile options = .ok c := by
    cases h : similarNames.compile options with
    | ok c => exact ⟨c, rfl⟩
    | error e => rw [h] at accepted; cases accepted
  obtain ⟨refs, -, elements, nodup, injective⟩ := Document.created_compile compiled
  refine ⟨c, compiled, List.ext_getElem? fun i => ?_, elements, nodup (injective .ruby)⟩
  rw [refs]
  match i with
  | 0 | 1 | 2 | 3 | 4 | 5 => decide +kernel
  | i + 6 => rfl

end DomTemplate
