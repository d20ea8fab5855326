import DomTemplate.Proofs.Dom
import DomTemplate.Proofs.Naming
import DomTemplate.Proofs.OnePass

/-! Carrying out the operations of a template rebuilds its tree. The tree is given by a
grammar of the children of a document, in which a closing tag answers the opening tag of the
same source; nothing in it speaks of scopes, containers or references. Compiling accepts
only children that follow the grammar, and the operations of such children, carried out at
any node, add the forest of the grammar to it and touch no other node. -/

namespace DomTemplate
open Compile

def Part.isStatement : Part → Bool
  | code block => block.kind == .statement
  | _ => false

/-- What a part of a text run shows, which stands between the given neighbours. -/
def shownPart : Bool × Part × Bool → List Fragment
  | (after, .raw value, before) => ((shownLiteral? after before value).map .literal).toList
  | (_, .code ⟨.expression, source, _⟩, _) => [.code source.trim]
  | _ => []

def shownText (parts : List Part) : List Fragment := (withNeighbours false parts).flatMap shownPart

namespace Node

/-- The text that a child shows; a tag shows none itself. -/
def shown : Node → List Fragment
  | text parts => shownText parts
  | raw value => shownText [.raw value]
  | code block => shownText [.code block]
  | _ => []

def isStatementFree : Node → Bool
  | text parts => parts.all (!·.isStatement)
  | code block => block.kind != .statement
  | _ => true

end Node

/-- Children that match tag for tag, and the forest that they stand for. -/
inductive Nests : List Node → Forest → Prop where
  | nil : Nests [] .nil
  | leaf {n : Node} {ns : List Node} {rest : Forest} (plain : ∀ t, n ≠ .tag t)
      (after : Nests ns rest) : Nests (n :: ns) (.texts n.shown rest)
  | void {t : Tag} {ns : List Node} {rest : Forest} (opening : t.closing = false)
      (void : isVoidName (t.name.getD []) = true) (after : Nests ns rest) :
      Nests (.tag t :: ns) (.element (namedText (t.name.getD [])) t.settings .nil rest)
  | element {t close : Tag} {inner ns : List Node} {children rest : Forest}
      (opening : t.closing = false) (open_ended : isVoidName (t.name.getD []) = false)
      (closing : close.closing = true) (same : close.source = t.source)
      (content : Nests inner children) (after : Nests ns rest) :
      Nests (.tag t :: (inner ++ .tag close :: ns))
        (.element (namedText (t.name.getD [])) t.settings children rest)

/-- Children that match tag for tag, apart from closing tags for the given open tags. -/
inductive Closes : List Bytes → List Node → Prop where
  | done {ns : List Node} {f : Forest} (nests : Nests ns f) : Closes [] ns
  | close {tag : Bytes} {outer : List Bytes} {close : Tag} {inner ns : List Node} {f : Forest}
      (nests : Nests inner f) (closing : close.closing = true) (same : close.source = tag)
      (after : Closes outer ns) : Closes (tag :: outer) (inner ++ .tag close :: ns)

namespace Closes
variable {outer : List Bytes} {ns : List Node}

theorem cons {n : Node} (h : Closes outer ns)
    (nests : ∀ {ms f}, Nests ms f → ∃ g, Nests (n :: ms) g) : Closes outer (n :: ns) := by
  cases h with
  | done inner =>
    obtain ⟨g, hg⟩ := nests inner
    exact .done hg
  | close inner closing same after =>
    obtain ⟨g, hg⟩ := nests inner
    exact .close hg closing same after

/-- What closes an element and the elements around it is its content, its closing tag, and
what closes the elements around it. -/
theorem element {t : Tag} (opening : t.closing = false)
    (open_ended : isVoidName (t.name.getD []) = false) (h : Closes (t.source :: outer) ns) :
    Closes outer (.tag t :: ns) := by
  cases h with
  | @close _ _ close inner ns f content closing same after =>
    cases after with
    | done rest => exact .done (.element opening open_ended closing same content rest)
    | @close tag outer last between ns g rest closing' same' after =>
      have joined := Nests.element opening open_ended closing same content rest
      have all := Closes.close joined closing' same' after
      rwa [List.cons_append, List.append_assoc, List.cons_append] at all

end Closes

namespace Compile
variable {options : CompileOptions}

end Compile

namespace Pass
variable {options : CompileOptions} {root : Bytes}

theorem textPartOps_shown {target : Bytes} {p : Bool × Part × Bool}
    (stateless : p.2.1.isStatement = false) :
    textPartOps target p = (shownPart p).map (.addText target) := by
  obtain ⟨after, p, before⟩ := p
  cases p with
  | raw value =>
    simp only [textPartOps, shownPart]
    cases shownLiteral? after before value <;> rfl
  | code block =>
    obtain ⟨kind, source, pos⟩ := block
    cases kind with
    | statement => cases stateless
    | expression | comment | other => rfl
  | absent | misplaced => rfl

theorem mem_of_mem_withNeighbours {after : Bool} {parts : List Part} {p : Bool × Part × Bool}
    (h : p ∈ withNeighbours after parts) : p.2.1 ∈ parts := by
  induction parts generalizing after with
  | nil => cases h
  | cons q qs ih =>
    rw [withNeighbours, List.mem_cons] at h
    rcases h with rfl | h
    · exact List.mem_cons_self
    · exact List.mem_cons_of_mem _ (ih h)

theorem textOps_shown {target : Bytes} {parts : List Part}
    (stateless : parts.all (!·.isStatement) = true) :
    textOps target parts = (shownText parts).map (.addText target) := by
  rw [textOps, shownText, List.map_flatMap]
  refine List.flatMap_congr fun p mem => textPartOps_shown ?_
  simpa using List.all_eq_true.mp stateless _ (mem_of_mem_withNeighbours mem)

/-- A child that is no tag adds what it shows, and does nothing else. -/
theorem step_shown {n : Node} {p : Pass} (plain : ∀ t, n ≠ .tag t)
    (stateless : n.isStatementFree = true) :
    p.step options root n = (p, n.shown.map (.addText (p.top root))) := by
  cases n with
  | tag t => exact absurd rfl (plain t)
  | text parts => simp only [step, Node.shown, textOps_shown stateless]
  | raw value => simp only [step, Node.shown, @textOps_shown _ [.raw value] rfl]
  | code block =>
    have single : [Part.code block].all (!·.isStatement) = true := by
      simpa [Part.isStatement, Node.isStatementFree] using stateless
    simp only [step, Node.shown, ← textOps_shown single]
    simp [textOps, withNeighbours, textPartOps]
  | absent | comment | doctype | misplaced => rfl

theorem step_opening {t : Tag} {p : Pass} (opening : t.closing = false) :
    p.step options root (.tag t) =
      (⟨if isVoidName (t.name.getD []) then p.refs
          else nextRef options p.issued (t.name.getD []) :: p.refs,
        tagStem (t.name.getD []) :: p.issued⟩,
       openingOps (p.top root) (nextRef options p.issued (t.name.getD [])) t) := by
  simp [step, opening]

theorem step_closing {t : Tag} {p : Pass} (closing : t.closing = true) :
    p.step options root (.tag t) = (⟨p.refs.tail, p.issued⟩, []) := by
  simp [step, closing]

theorem create_mem_openingOps {target ref r : Bytes} {t : Tag} {tag : List Fragment}
    (h : .create r tag ∈ openingOps target ref t) : r = ref := by
  rw [openingOps, List.mem_cons, List.mem_append, List.mem_map, List.mem_singleton] at h
  rcases h with h | ⟨s, -, h⟩ | h
  · cases h; rfl
  · cases s <;> cases h
  · cases h

/-- A child creates no element but the next one of its name. -/
theorem create_mem_step {p : Pass} {n : Node} {r : Bytes} {tag : List Fragment}
    (stateless : n.isStatementFree = true) (h : .create r tag ∈ (p.step options root n).2) :
    ∃ name, r = nextRef options p.issued name := by
  by_cases plain : ∀ t, n ≠ .tag t
  · rw [step_shown plain stateless, List.mem_map] at h
    obtain ⟨v, -, h⟩ := h
    cases h
  · obtain ⟨t, rfl⟩ : ∃ t, n = .tag t := by simpa using plain
    cases closing : t.closing with
    | true => rw [step_closing closing] at h; cases h
    | false =>
      rw [step_opening closing] at h
      exact ⟨_, create_mem_openingOps h⟩

theorem issued_step (p : Pass) (n : Node) : p.issued <:+ (p.step options root n).1.issued := by
  by_cases plain : ∀ t, n ≠ .tag t
  · rw [step_leaf plain]
  · obtain ⟨t, rfl⟩ : ∃ t, n = .tag t := by simpa using plain
    cases closing : t.closing with
    | true => rw [step_closing closing]
    | false => rw [step_opening closing]; exact List.suffix_cons _ _

theorem create_mem_run {p : Pass} {ns : List Node} {r : Bytes} {tag : List Fragment}
    (stateless : ∀ n ∈ ns, n.isStatementFree = true)
    (h : .create r tag ∈ (p.run options root ns).2) :
    ∃ issued name, p.issued <:+ issued ∧ r = nextRef options issued name := by
  induction ns generalizing p with
  | nil => cases h
  | cons n ns ih =>
    rw [run, List.mem_append] at h
    rcases h with h | h
    · obtain ⟨name, rfl⟩ := create_mem_step (stateless n List.mem_cons_self) h
      exact ⟨p.issued, name, List.suffix_rfl, rfl⟩
    · obtain ⟨issued, name, later, rfl⟩ :=
        ih (fun m mem => stateless m (List.mem_cons_of_mem _ mem)) h
      exact ⟨issued, name, (issued_step p n).trans later, rfl⟩

/-- What is named later is another element. -/
theorem nextRef_fresh (injective : Function.Injective options.ref) {issued issued' : List Bytes}
    {name name' : List Part} (later : tagStem name :: issued <:+ issued') :
    nextRef options issued' name' ≠ nextRef options issued name := by
  intro same
  exact elementName_fresh later (injective same)

end Pass

/-- Operations that build a forest in the node that `target` names: texts are added there, or an element
is opened there and filled. If references are `distinct`, its content has no element of its name. -/
inductive Builds (distinct : Prop) : Bytes → List DomOp → Forest → Prop where
  | nil {target : Bytes} : Builds distinct target [] .nil
  | texts {target : Bytes} {ops : List DomOp} {rest : Forest} (values : List Fragment)
      (after : Builds distinct target ops rest) :
      Builds distinct target (values.map (.addText target) ++ ops) (.texts values rest)
  | element {target ref : Bytes} {t : Tag} {inner ops : List DomOp} {children rest : Forest}
      (unnamed : distinct → ∀ tag, .create ref tag ∉ inner) (content : Builds distinct ref inner children)
      (after : Builds distinct target ops rest) :
      Builds distinct target (openingOps target ref t ++ (inner ++ ops))
        (.element (namedText (t.name.getD [])) t.settings children rest)

/-- The operations of nesting children build their forest, and leave open what was open. -/
theorem Nests.builds {options : CompileOptions} {root : Bytes} {ns : List Node} {f : Forest} (h : Nests ns f)
    (stateless : ∀ n ∈ ns, n.isStatementFree = true) (p : Pass) :
    (p.run options root ns).1.refs = p.refs ∧
      Builds (Function.Injective options.ref) (p.top root) (p.run options root ns).2 f := by
  induction h generalizing p with
  | nil => exact ⟨rfl, .nil⟩
  | @leaf n ns rest plain after ih =>
    obtain ⟨refs, built⟩ := ih (fun m mem => stateless m (List.mem_cons_of_mem _ mem)) p
    simp only [Pass.run, Pass.step_shown plain (stateless n List.mem_cons_self)]
    exact ⟨refs, built.texts _⟩
  | @void t ns rest opening void after ih =>
    have here := @Pass.step_opening options root t p opening
    rw [void, if_pos rfl] at here
    obtain ⟨refs, built⟩ := ih (fun m mem => stateless m (List.mem_cons_of_mem _ mem))
      ⟨p.refs, tagStem (t.name.getD []) :: p.issued⟩
    simp only [Pass.run, here]
    exact ⟨refs, .element (fun _ _ => List.not_mem_nil) .nil built⟩
  | @element t close inner ns children rest opening open_ended closing same content after
      ihContent ihAfter =>
    have here := @Pass.step_opening options root t p opening
    rw [open_ended, if_neg Bool.false_ne_true] at here
    have within : ∀ n ∈ inner, n.isStatementFree = true := fun n mem =>
      stateless n (List.mem_cons_of_mem _ (List.mem_append_left _ mem))
    -- the pass inside the element, and the one after its closing tag
    obtain ⟨refs₁, filled⟩ := ihContent within
      ⟨nextRef options p.issued (t.name.getD []) :: p.refs, tagStem (t.name.getD []) :: p.issued⟩
    simp only [Pass.run, here, Pass.run_append, Pass.step_closing closing, List.nil_append, refs₁,
      List.tail_cons]
    generalize (Pass.run options root _ inner).1.issued = issued
    obtain ⟨refs₂, built⟩ := ihAfter (fun n mem => stateless n (List.mem_cons_of_mem _
      (List.mem_append_right _ (List.mem_cons_of_mem _ mem)))) ⟨p.refs, issued⟩
    refine ⟨refs₂, .element (fun injective tag mem => ?_) filled built⟩
    -- no element of the content is called as the element itself
    obtain ⟨issued, name, later, named⟩ := Pass.create_mem_run within mem
    exact Pass.nextRef_fresh injective later named.symm

theorem Builds.execAll {distinct : Prop} {target : Bytes} {ops : List DomOp} {f : Forest}
    (h : Builds distinct target ops f) (apart : distinct) {d : Dom} {id : Nat}
    (bound : d.node? target = some id) (inside : id < d.nodes.length)
    (unshared : ∀ tag, .create target tag ∉ ops) :
    ∃ d' added, d.execAll ops = some d' ∧ d.Grown d' id added ∧ d'.Shows d.nodes.length added f := by
  induction h generalizing d id with
  | nil => exact ⟨d, [], rfl, .refl d id, .nil⟩
  | texts values after ih =>
    obtain ⟨d₁, first, grown₁⟩ := Dom.execAll_texts values bound
    have bound₁ := (Dom.node?_execAll first (by simp)).trans bound
    obtain ⟨d₂, added, second, grown₂, shown⟩ := ih bound₁ (Nat.lt_of_lt_of_le inside grown₁.longer)
      fun tag mem => unshared tag (List.mem_append_right _ mem)
    refine ⟨d₂, _, ?_, grown₁.trans grown₂, (shown.mono grown₁.longer).texts _⟩
    rw [Dom.execAll_append, first]
    exact second
  | @element target ref t inner ops children rest unnamed content after ihContent ihAfter =>
    have other : target ≠ ref := by
      rintro rfl
      exact unshared _ (List.mem_append_left _ List.mem_cons_self)
    obtain ⟨d₁, first, opened, length, created, bound₁⟩ := Dom.execAll_opening t bound other inside
    obtain ⟨d₂, kids, second, filled, below⟩ := ihContent bound₁ (by omega) (unnamed apart)
    have bound₂ : d₂.node? target = some id := by
      rw [Dom.node?_execAll second fun tag mem =>
          unshared tag (List.mem_append_right _ (List.mem_append_left _ mem)),
        Dom.node?_execAll first fun tag mem => unshared tag (List.mem_append_left _ mem), bound]
    obtain ⟨d₃, added, third, followed, shown⟩ := ihAfter bound₂
      (Nat.lt_of_lt_of_le inside (Nat.le_trans opened.longer filled.longer))
      fun tag mem => unshared tag (List.mem_append_right _ (List.mem_append_right _ mem))
    have grown := Dom.shows_element inside opened (by omega) created rfl filled below followed shown
    refine ⟨d₃, _, ?_, grown⟩
    rw [Dom.execAll_append, first, Option.bind_some, Dom.execAll_append, second]
    exact third

/-- Carrying out the operations of nesting children adds their forest to the node that
content goes to, and nothing to any other node. -/
theorem Nests.execAll {options : CompileOptions} {root : Bytes} {ns : List Node} {f : Forest}
    (h : Nests ns f) (injective : Function.Injective options.ref)
    (stateless : ∀ n ∈ ns, n.isStatementFree = true) {p : Pass} {d : Dom} {id : Nat}
    (bound : d.node? (p.top root) = some id) (inside : id < d.nodes.length)
    (unshared : ∀ tag, .create (p.top root) tag ∉ (p.run options root ns).2) :
    (p.run options root ns).1.refs = p.refs ∧
      ∃ d' added, d.execAll (p.run options root ns).2 = some d' ∧ d.Grown d' id added ∧
        d'.Shows d.nodes.length added f := by
  obtain ⟨refs, built⟩ := h.builds stateless p
  exact ⟨refs, built.execAll injective bound inside unshared⟩

theorem Target.ref_injective (t : Target) : Function.Injective t.ref := by
  intro a b h
  cases t with
  | ruby => exact List.append_cancel_left h
  | javascript => exact h

end DomTemplate
