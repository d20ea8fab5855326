import DomTemplate.Proofs.Operations
import DomTemplate.Proofs.Step

/-! Compiling and exporting as one pass over the children of a document. The pass keeps
the references of the open elements and the stems named so far, and gives out operations as
it goes. The operations held by the open scopes, outermost first, are at every moment those
that the pass has given out; so the nesting of containers, which the exporter takes apart
again, adds nothing and loses nothing. -/

namespace DomTemplate
open Compile

/-- Where a pass stands. -/
structure Pass where
  /-- The references of the open elements, innermost first. -/
  refs : List Bytes := []
  /-- The stems of the elements named so far. -/
  issued : List Bytes := []
  deriving DecidableEq, Repr

namespace Pass

/-- The node that content goes to. -/
def top (root : Bytes) (p : Pass) : Bytes := p.refs.headD root

/-- The operations of a child, and where the pass stands after it. -/
def step (options : CompileOptions) (root : Bytes) (p : Pass) : Node → Pass × List DomOp
  | .tag t =>
    if t.closing then ({ p with refs := p.refs.tail }, [])
    else
      let name := t.name.getD []
      let ref := nextRef options p.issued name
      ({ refs := if isVoidName name then p.refs else ref :: p.refs
         issued := tagStem name :: p.issued },
       openingOps (p.top root) ref t)
  | .text parts => (p, textOps (p.top root) parts)
  | .raw value => (p, textOps (p.top root) [.raw value])
  | .code block => (p, block.ops (p.top root))
  | .absent | .comment .. | .doctype .. | .misplaced _ => (p, [])

def run (options : CompileOptions) (root : Bytes) (p : Pass) : List Node → Pass × List DomOp
  | [] => (p, [])
  | n :: ns =>
    let (after, ops) := p.step options root n
    let (last, rest) := run options root after ns
    (last, ops ++ rest)

theorem run_append (options : CompileOptions) (root : Bytes) (p : Pass) (ms ns : List Node) :
    p.run options root (ms ++ ns) =
      (((p.run options root ms).1.run options root ns).1,
        (p.run options root ms).2 ++ ((p.run options root ms).1.run options root ns).2) := by
  induction ms generalizing p with
  | nil => rfl
  | cons m ms ih => simp only [List.cons_append, run, ih, List.append_assoc]

end Pass

/-- The operations held by open scopes, outermost first. -/
def Scopes.ops : Scopes → Except Crash (List DomOp)
  | [] => .ok []
  | [f] => Intent.opsOf f.target f.target f.nodes
  | f :: g :: outer => do
    return (← Scopes.ops (g :: outer)) ++ (← Intent.opsOf f.target g.target f.nodes)

namespace Scopes
variable {f g : Frame} {outer : Scopes} {n : Intent} {a b : List DomOp}

theorem ops_cons_ok (h : Scopes.ops (f :: g :: outer) = .ok a) :
    ∃ before own, Scopes.ops (g :: outer) = .ok before ∧
      Intent.opsOf f.target g.target f.nodes = .ok own ∧ a = before ++ own := by
  rw [Scopes.ops] at h
  obtain ⟨before, hbefore, h⟩ := exists_of_bind_ok h
  obtain ⟨own, hown, h⟩ := exists_of_bind_ok h
  cases h
  exact ⟨before, own, hbefore, hown, rfl⟩

theorem ops_cons (hbefore : Scopes.ops (g :: outer) = .ok a)
    (hown : Intent.opsOf f.target g.target f.nodes = .ok b) :
    Scopes.ops (f :: g :: outer) = .ok (a ++ b) := by
  rw [Scopes.ops, hbefore, hown]
  rfl

theorem ops_append (h : Scopes.ops (f :: outer) = .ok a)
    (hn : ∀ parent, n.ops f.target parent = .ok b) :
    Scopes.ops (f.append n :: outer) = .ok (a ++ b) := by
  have single (parent : Bytes) : Intent.opsOf f.target parent [n] = .ok (b ++ []) :=
    Intent.opsOf_cons (hn parent) rfl
  simp only [List.append_nil] at single
  cases outer with
  | nil => exact Intent.opsOf_append h (single f.target)
  | cons g outer =>
    obtain ⟨before, own, hbefore, hown, rfl⟩ := ops_cons_ok h
    rw [List.append_assoc]
    exact ops_cons hbefore (Intent.opsOf_append hown (single g.target))

/-- Handing a frame over to the one around it changes no operation. -/
theorem ops_close (h : Scopes.ops (f :: g :: outer) = .ok a) :
    Scopes.ops (g.append (.container f.container) :: outer) = .ok a := by
  obtain ⟨before, own, hbefore, hown, rfl⟩ := ops_cons_ok h
  exact ops_append hbefore fun parent => hown

end Scopes

namespace Compile
variable {options : CompileOptions} {root : Bytes}

theorem ops_leaf {n : Node} {p : Pass} {target parent : Bytes} {i : Intent}
    (plain : ∀ t, n ≠ .tag t) (top : target = p.top root)
    (h : alone (node options n) target = .ok i) :
    i.ops target parent = .ok (p.step options root n).2 := by
  subst top
  cases n with
  | tag t => exact absurd rfl (plain t)
  | text parts => exact ops_text h
  | raw value => exact @ops_text [.raw value] _ _ _ h
  | code block => cases h; exact ops_code block _ _
  | absent | comment => cases h; rfl
  | doctype | misplaced => cases h

theorem step_leaf {n : Node} {p : Pass} (plain : ∀ t, n ≠ .tag t) :
    (p.step options root n).1 = p := by
  cases n with
  | tag t => exact absurd rfl (plain t)
  | _ => rfl

/-- The pass goes along with each child that is placed. -/
theorem Placed.pass {n : Node} {s s' : CompileState} {opened : List OpenElement} {p : Pass}
    {a : List DomOp} (h : Placed options n s s') (standing : Standing root opened s.scopes)
    (refs : p.refs = opened.map OpenElement.ref) (issued : p.issued = s.issued)
    (ops : Scopes.ops s.scopes = .ok a) :
    ∃ opened', Standing root opened' s'.scopes ∧
      (p.step options root n).1.refs = opened'.map OpenElement.ref ∧
      (p.step options root n).1.issued = s'.issued ∧
      Scopes.ops s'.scopes = .ok (a ++ (p.step options root n).2) := by
  -- the innermost frame builds the node on top of the pass
  have top {f : Frame} {outer : Scopes} (hs : s.scopes = f :: outer) : f.target = p.top root := by
    rw [hs] at standing
    rw [standing.target_eq, Pass.top, refs]
  cases h with
  | leaf plain result =>
    rw [step_leaf plain]
    refine ⟨opened, standing.append _, refs, issued, ?_⟩
    exact Scopes.ops_append ops fun parent => ops_leaf plain (top rfl) result
  | @void t name f outer names ref head opening named nonempty void fresh result =>
    have hstep : p.step options root (.tag t) =
        (⟨p.refs, tagStem name :: names⟩, openingOps f.target ref t) := by
      simp [Pass.step, opening, named, void, fresh, top rfl, issued]
    rw [hstep]
    refine ⟨opened, standing.append _, refs, rfl, Scopes.ops_append ops fun parent => ?_⟩
    exact opsOf_creation ref f.target named result
  | @opened t name scopes names ref head opening named nonempty void fresh result =>
    obtain ⟨f, outer, rfl⟩ : ∃ f outer, scopes = f :: outer := by
      cases standing <;> exact ⟨_, _, rfl⟩
    have hstep : p.step options root (.tag t) =
        (⟨ref :: p.refs, tagStem name :: names⟩, openingOps f.target ref t) := by
      simp [Pass.step, opening, named, void, fresh, top rfl, issued]
    rw [hstep]
    refine ⟨_, .element standing, ?_, rfl, ?_⟩
    · simp [refs, Frame.element, elementFrame]
    · exact Scopes.ops_cons ops (opsOf_creation ref f.target named result)
  | @closed t f g outer names closing element same =>
    have hstep : p.step options root (.tag t) = (⟨p.refs.tail, p.issued⟩, []) := by
      simp [Pass.step, closing]
    rw [hstep, List.append_nil]
    exact ⟨opened.tail, (standing.close element).append _, by simp [refs, List.map_tail], issued,
      Scopes.ops_close ops⟩

theorem each_pass {ns : List Node} {s s' : CompileState} {opened : List OpenElement} {p : Pass}
    {a : List DomOp} (h : each (node options) ns s = .ok ((), s'))
    (standing : Standing root opened s.scopes) (refs : p.refs = opened.map OpenElement.ref)
    (issued : p.issued = s.issued) (ops : Scopes.ops s.scopes = .ok a) :
    ∃ opened', Standing root opened' s'.scopes ∧
      (p.run options root ns).1.refs = opened'.map OpenElement.ref ∧
      (p.run options root ns).1.issued = s'.issued ∧
      Scopes.ops s'.scopes = .ok (a ++ (p.run options root ns).2) := by
  induction ns generalizing s opened p a with
  | nil =>
    cases h
    exact ⟨opened, standing, refs, issued, by simpa [Pass.run] using ops⟩
  | cons n ns ih =>
    obtain ⟨scopes, names⟩ := s
    obtain ⟨f, outer, rfl⟩ := standing.ne_nil
    obtain ⟨mid, placed, rest⟩ := each_cons_ok h
    obtain ⟨opened₁, standing₁, refs₁, issued₁, ops₁⟩ := placed.pass standing refs issued ops
    obtain ⟨opened₂, standing₂, refs₂, issued₂, ops₂⟩ := ih rest standing₁ refs₁ issued₁ ops₁
    rw [List.append_assoc] at ops₂
    exact ⟨opened₂, standing₂, refs₂, issued₂, ops₂⟩

end Compile

/-- The operations of a compiled document are those of the pass over its children, which
ends with nothing open. -/
theorem Document.ops_compile {options : CompileOptions} {doc : Document} {c : Container Intent}
    (h : doc.compile options = .ok c) :
    (Intent.container c).ops options.mount options.mount =
        .ok (({} : Pass).run options options.mount doc.children).2 ∧
      (({} : Pass).run options options.mount doc.children).1.refs = [] := by
  obtain ⟨d, r, issued, run, rfl⟩ := compile_ok h
  obtain ⟨opened, standing, refs, -, ops⟩ :=
    each_pass (p := {}) run (standing_initial options) rfl rfl rfl
  have closed : opened = [] := List.length_eq_zero_iff.mp (by simpa using standing.length_eq.symm)
  subst closed
  refine ⟨?_, refs⟩
  cases standing with
  | document target transparent =>
    obtain ⟨before, own, hbefore, hown, same⟩ := Scopes.ops_cons_ok ops
    cases hbefore
    rw [List.nil_append, List.nil_append] at same
    rw [same]
    exact hown

end DomTemplate
