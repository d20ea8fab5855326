import DomTemplate.Proofs.Dom
import Mathlib.Data.List.Infix

/-! Text that is added to what a node already shows. To read the text of a node is to read all text
below it, and to assign it replaces the children of the node by one text. So no element is lost as long
as text is added only to nodes that hold no element yet, and the document is then the one that text
nodes build, with neighbouring texts joined. In general a node comes out with its children joined to one
text up to the last text among them. -/

namespace DomTemplate

/-- The text of a fragment, where `value` gives the text that code evaluates to. -/
def Fragment.eval (value : Bytes → Bytes) : Fragment → Bytes
  | literal text => text
  | code text => value text

namespace Forest
variable (value : Bytes → Bytes)

def append : Forest → Forest → Forest
  | nil, g => g
  | text v rest, g => text v (rest.append g)
  | element tag settings children rest, g => element tag settings children (rest.append g)

/-- All text of a forest, in order. -/
def textOf : Forest → Bytes
  | nil => []
  | text v rest => v.eval value ++ rest.textOf
  | element _ _ children rest => children.textOf ++ rest.textOf

/-- The elements of a forest, each with its settings, all text below it and the elements in it. -/
def elements : Forest → Forest
  | nil => nil
  | text _ rest => rest.elements
  | element tag settings children rest =>
    element tag settings (text (.literal (children.textOf value)) children.elements) rest.elements

/-- Two forests hold the same elements, and show the same text in each of them and on the whole. -/
def Alike (f g : Forest) : Prop := f.elements value = g.elements value ∧ f.textOf value = g.textOf value

/-- Text in front of a forest, joined with a text that comes first. -/
def joinText (s : Bytes) : Forest → Forest
  | text (.literal t) rest => text (.literal (s ++ t)) rest
  | f => text (.literal s) f

/-- Neighbouring texts as one. -/
def normalized : Forest → Forest
  | nil => nil
  | text v rest => rest.normalized.joinText (v.eval value)
  | element tag settings children rest =>
    element tag settings children.normalized rest.normalized

def size : Forest → Nat
  | nil => 0
  | text _ rest => rest.size
  | element _ _ children rest => children.size + rest.size + 1

variable {value}

theorem append_assoc (f g h : Forest) : (f.append g).append h = f.append (g.append h) := by
  induction f with
  | nil => rfl
  | text v rest ih => simp only [append, ih]
  | element tag settings children rest _ ih => simp only [append, ih]

@[simp] theorem append_nil (f : Forest) : f.append nil = f := by
  induction f with
  | nil => rfl
  | text v rest ih => simp only [append, ih]
  | element tag settings children rest _ ih => simp only [append, ih]

@[simp] theorem textOf_append (f g : Forest) :
    (f.append g).textOf value = f.textOf value ++ g.textOf value := by
  induction f with
  | nil => rfl
  | text v rest ih => simp only [append, textOf, ih, List.append_assoc]
  | element tag settings children rest _ ih => simp only [append, textOf, ih, List.append_assoc]

section Joined
variable (s t : Bytes) (f : Forest)

theorem joinText_cases : (∃ t rest, f = text (.literal t) rest ∧
    f.joinText s = text (.literal (s ++ t)) rest) ∨ f.joinText s = text (.literal s) f := by
  unfold joinText
  split
  · exact .inl ⟨_, _, rfl, rfl⟩
  · exact .inr rfl

@[simp] theorem textOf_joinText : (f.joinText s).textOf value = s ++ f.textOf value := by
  rcases joinText_cases s f with ⟨t, rest, rfl, joined⟩ | joined <;>
    simp [joined, textOf, Fragment.eval]

@[simp] theorem elements_joinText : (f.joinText s).elements value = f.elements value := by
  rcases joinText_cases s f with ⟨t, rest, rfl, joined⟩ | joined <;> simp [joined, elements]

end Joined

end Forest

section Children
variable (value : Bytes → Bytes)

/-- Text in front of children, joined with a text that comes first. -/
def DomChild.joinText (s : Bytes) : List DomChild → List DomChild
  | text (.literal t) :: cs => text (.literal (s ++ t)) :: cs
  | cs => text (.literal s) :: cs

/-- Neighbouring texts as one. -/
def DomChild.normalized : List DomChild → List DomChild
  | [] => []
  | text v :: cs => joinText (v.eval value) (normalized cs)
  | node id :: cs => node id :: normalized cs

def DomNode.normalized (n : DomNode) : DomNode := { n with children := DomChild.normalized value n.children }

def Dom.normalized (d : Dom) : Dom := ⟨d.nodes.map (DomNode.normalized value), d.bindings⟩

def DomNode.setText (s : Bytes) (n : DomNode) : DomNode := { n with children := [.text (.literal s)] }

end Children

namespace DomChild
variable {value : Bytes → Bytes}

end DomChild

namespace Dom
variable {value : Bytes → Bytes} {d d' d'' : Dom} {least : Nat} {cs : List DomChild} {f : Forest}

theorem Shows.normalized (h : d.Shows least cs f) :
    (d.normalized value).Shows least (DomChild.normalized value cs) (f.normalized value) := by
  have joined {d : Dom} {cs : List DomChild} {f : Forest} (s : Bytes) (h : d.Shows least cs f) :
      d.Shows least (DomChild.joinText s cs) (f.joinText s) := by
    cases h with
    | nil => exact .text .nil
    | @text v cs rest after =>
      cases v with
      | literal t => exact .text after
      | code t => exact .text (.text after)
    | node from_least at_id below after => exact .text (.node from_least at_id below after)
  induction h with
  | nil => exact .nil
  | text after ih => exact joined _ ih
  | @node id n cs children rest from_least at_id below after ihBelow ihAfter =>
    refine .node (n := n.normalized value) from_least ?_ ihBelow ihAfter
    rw [Dom.normalized, List.getElem?_map, at_id]
    rfl

/-- The forest below a node, made of younger nodes. -/
def Under (d : Dom) (id : Nat) (f : Forest) : Prop :=
  ∃ n, d.nodes[id]? = some n ∧ d.Shows (id + 1) n.children f

theorem Under.normalized {id : Nat} (h : d.Under id f) :
    (d.normalized value).Under id (f.normalized value) := by
  obtain ⟨n, at_id, below⟩ := h
  refine ⟨n.normalized value, ?_, below.normalized⟩
  rw [Dom.normalized, List.getElem?_map, at_id]
  rfl

/-- An operation, where text is added to the text of its target: what is below the target is read and
becomes one text with it. -/
inductive Accumulates (value : Bytes → Bytes) (d : Dom) : DomOp → Dom → Prop where
  | text {target : Bytes} {v : Fragment} {id : Nat} {n : DomNode} {f : Forest} {d' : Dom}
      (bound : d.node? target = some id) (at_id : d.nodes[id]? = some n)
      (below : d.Shows 0 n.children f)
      (assigned : d.change target (.setText (f.textOf value ++ v.eval value)) = some d') :
      Accumulates value d (.addText target v) d'
  | other {op : DomOp} {d' : Dom} (plain : ∀ target v, op ≠ .addText target v)
      (done : d.exec op = some d') : Accumulates value d op d'

/-- Operations in order, where text is added to the text of its target. -/
inductive AccumulatesAll (value : Bytes → Bytes) : Dom → List DomOp → Dom → Prop where
  | nil {d : Dom} : AccumulatesAll value d [] d
  | cons {d d₁ d₂ : Dom} {op : DomOp} {ops : List DomOp} (first : d.Accumulates value op d₁)
      (rest : AccumulatesAll value d₁ ops d₂) : AccumulatesAll value d (op :: ops) d₂

theorem Accumulates.unique {op : DomOp} (h : d.Accumulates value op d')
    (h' : d.Accumulates value op d'') : d' = d'' := by
  cases h with
  | text bound at_id below assigned =>
    cases h' with
    | text bound' at_id' below' assigned' =>
      cases bound.symm.trans bound'
      cases at_id.symm.trans at_id'
      rw [below.unique below'] at assigned
      exact Option.some.inj (assigned.symm.trans assigned')
    | other plain => exact absurd rfl (plain _ _)
  | other plain done =>
    cases h' with
    | text => exact absurd rfl (plain _ _)
    | other _ done' => exact Option.some.inj (done.symm.trans done')

namespace AccumulatesAll
variable {ops more : List DomOp}

theorem unique (h : AccumulatesAll value d ops d') (h' : AccumulatesAll value d ops d'') : d' = d'' := by
  induction h with
  | nil => cases h'; rfl
  | cons first rest ih =>
    cases h' with
    | cons first' rest' =>
      cases first.unique first'
      exact ih rest'

theorem append (h : AccumulatesAll value d ops d') (h' : AccumulatesAll value d' more d'') :
    AccumulatesAll value d (ops ++ more) d'' := by
  induction h with
  | nil => exact h'
  | cons first rest ih => exact .cons first (ih h')

end AccumulatesAll

/-- The node that a reference is bound to holds nothing but texts. -/
def OnlyTexts (d : Dom) (ref : Bytes) : Prop :=
  ∃ (id : Nat) (n : DomNode) (vs : List Fragment),
    d.node? ref = some id ∧ d.nodes[id]? = some n ∧ n.children = vs.map .text

/-- Text is added only to nodes that hold nothing but texts yet. -/
def AddsTextFirst (d : Dom) : List DomOp → Prop
  | [] => True
  | op :: ops => (∀ target v, op = .addText target v → d.OnlyTexts target) ∧
    ∀ d', d.exec op = some d' → d'.AddsTextFirst ops

end Dom

end DomTemplate
