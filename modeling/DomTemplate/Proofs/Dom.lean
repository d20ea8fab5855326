import DomTemplate.Proofs.Operations

/-! A document that operations are carried out on. Nodes are numbered in the order of their
creation, references are bound to nodes, and an operation on a reference that is bound to
nothing does not go through. What stands below a list of children is a forest; it is read
off the nodes from a given number on, so that it stays the same as long as these do. -/

namespace DomTemplate

/-- Trees of a document, as the first node with what is below it and the nodes after it. -/
inductive Forest where
  | nil
  | text (value : Fragment) (rest : Forest)
  | element (tag : List Fragment) (settings : List AttrSetting) (children rest : Forest)
  deriving DecidableEq, Repr

/-- Text nodes in front of a forest. -/
def Forest.texts (values : List Fragment) (rest : Forest) : Forest :=
  values.foldr Forest.text rest

inductive DomChild where
  | text (value : Fragment)
  | node (id : Nat)
  deriving DecidableEq, Repr

structure DomNode where
  tag : List Fragment := []
  settings : List AttrSetting := []
  children : List DomChild := []
  deriving DecidableEq, Repr

namespace DomNode

def addChildren (added : List DomChild) (n : DomNode) : DomNode :=
  { n with children := n.children ++ added }

def addSetting (s : AttrSetting) (n : DomNode) : DomNode :=
  { n with settings := n.settings ++ [s] }

end DomNode

structure Dom where
  nodes : List DomNode
  /-- References with the nodes they are bound to, the latest binding first. -/
  bindings : List (Bytes × Nat)
  deriving DecidableEq, Repr

namespace Dom

/-- A single empty node, bound to `root`. -/
def ofRoot (root : Bytes) : Dom := ⟨[{}], [(root, 0)]⟩

/-- The node that a reference is bound to. -/
def node? (d : Dom) (ref : Bytes) : Option Nat := d.bindings.lookup ref

/-- Change the node that `ref` is bound to. -/
def change (d : Dom) (ref : Bytes) (f : DomNode → DomNode) : Option Dom :=
  (d.node? ref).map fun id => { d with nodes := d.nodes.modify id f }

def exec (d : Dom) : DomOp → Option Dom
  | .create ref tag => some ⟨d.nodes ++ [{ tag }], (ref, d.nodes.length) :: d.bindings⟩
  | .appendChild parent child =>
    (d.node? child).bind fun id => d.change parent (.addChildren [.node id])
  | .addText target value => d.change target (.addChildren [.text value])
  | .setAttribute target name text => d.change target (.addSetting (.value name text))
  | .setFlag target name => d.change target (.addSetting (.flag name))
  | .listen target event handler => d.change target (.addSetting (.listener event handler))
  -- what code of the template does to the document is not known
  | .run _ => none

/-- Carry out operations in order. -/
def execAll (d : Dom) (ops : List DomOp) : Option Dom := ops.foldlM exec d

@[simp] theorem execAll_nil (d : Dom) : d.execAll [] = some d := rfl

theorem execAll_cons (d : Dom) (op : DomOp) (ops : List DomOp) :
    d.execAll (op :: ops) = (d.exec op).bind fun d => d.execAll ops := rfl

theorem execAll_append (d : Dom) (ops more : List DomOp) :
    d.execAll (ops ++ more) = (d.execAll ops).bind fun d => d.execAll more :=
  List.foldlM_append

/-- The forest below children, all of whose nodes are numbered from `least` on. -/
inductive Shows (d : Dom) (least : Nat) : List DomChild → Forest → Prop where
  | nil : Shows d least [] .nil
  | text {value : Fragment} {cs : List DomChild} {rest : Forest} (after : Shows d least cs rest) :
      Shows d least (.text value :: cs) (.text value rest)
  | node {id : Nat} {n : DomNode} {cs : List DomChild} {children rest : Forest}
      (from_least : least ≤ id) (at_id : d.nodes[id]? = some n)
      (below : Shows d least n.children children) (after : Shows d least cs rest) :
      Shows d least (.node id :: cs) (.element n.tag n.settings children rest)

/-- The forest below the node that `ref` is bound to, made of younger nodes. -/
def Holds (d : Dom) (ref : Bytes) (f : Forest) : Prop :=
  ∃ id n, d.node? ref = some id ∧ d.nodes[id]? = some n ∧ d.Shows (id + 1) n.children f

namespace Shows
variable {d d' : Dom} {least : Nat} {cs cs' : List DomChild} {f g : Forest}

theorem mono {lower : Nat} (h : d.Shows least cs f) (le : lower ≤ least) :
    d.Shows lower cs f := by
  induction h with
  | nil => exact .nil
  | text after ih => exact .text ih
  | node from_least at_id below after ihBelow ihAfter =>
    exact .node (Nat.le_trans le from_least) at_id ihBelow ihAfter

/-- The forest depends on no node before `least`. -/
theorem congr (h : d.Shows least cs f)
    (same : ∀ id n, least ≤ id → d.nodes[id]? = some n → d'.nodes[id]? = some n) :
    d'.Shows least cs f := by
  induction h with
  | nil => exact .nil
  | text after ih => exact .text ih
  | node from_least at_id below after ihBelow ihAfter =>
    exact .node from_least (same _ _ from_least at_id) ihBelow ihAfter

/-- Children have one forest below them. -/
theorem unique (hf : d.Shows least cs f) (hg : d.Shows least cs g) : f = g := by
  induction hf generalizing g with
  | nil => cases hg; rfl
  | text after ih =>
    cases hg with
    | text after' => rw [ih after']
  | node from_least at_id below after ihBelow ihAfter =>
    cases hg with
    | node from_least' at_id' below' after' =>
      cases at_id.symm.trans at_id'
      rw [ihBelow below', ihAfter after']

theorem texts (values : List Fragment) (h : d.Shows least cs f) :
    d.Shows least (values.map .text ++ cs) (.texts values f) := by
  induction values with
  | nil => exact h
  | cons v vs ih => exact .text ih

end Shows

/-- `d'` is `d` with children added to the node `id`, and with new nodes. -/
structure Grown (d d' : Dom) (id : Nat) (added : List DomChild) : Prop where
  grown : ∀ n, d.nodes[id]? = some n → d'.nodes[id]? = some (n.addChildren added)
  kept : ∀ j n, j ≠ id → d.nodes[j]? = some n → d'.nodes[j]? = some n
  longer : d.nodes.length ≤ d'.nodes.length

namespace Grown
variable {d d₁ d₂ : Dom} {id : Nat} {added added' : List DomChild}

theorem refl (d : Dom) (id : Nat) : Grown d d id [] where
  grown n h := by rw [h, DomNode.addChildren, List.append_nil]
  kept _ _ _ h := h
  longer := Nat.le_refl _

theorem trans (h₁ : Grown d d₁ id added) (h₂ : Grown d₁ d₂ id added') :
    Grown d d₂ id (added ++ added') where
  grown n h := by
    rw [h₂.grown _ (h₁.grown n h)]
    simp only [DomNode.addChildren, List.append_assoc]
  kept j n hj h := h₂.kept j n hj (h₁.kept j n hj h)
  longer := Nat.le_trans h₁.longer h₂.longer

/-- A forest of nodes younger than the node that grows stays as it is. -/
theorem shows {least : Nat} {cs : List DomChild} {f : Forest} (h : Grown d d₁ id added)
    (younger : id < least) (shown : d.Shows least cs f) : d₁.Shows least cs f := by
  refine shown.congr fun j n le at_j => h.kept j n ?_ at_j
  rintro rfl
  omega

/-- What grows on a node that `d` does not have yet is not seen in `d`. -/
theorem within {fresh : Nat} (h₁ : Grown d d₁ id added) (h₂ : Grown d₁ d₂ fresh added')
    (inside : id < d.nodes.length) (outside : d.nodes.length ≤ fresh) : Grown d d₂ id added where
  grown n h := h₂.kept id _ (by omega) (h₁.grown n h)
  kept j n hj h := by
    have : j < d.nodes.length := (List.getElem?_eq_some_iff.mp h).1
    exact h₂.kept j n (by omega) (h₁.kept j n hj h)
  longer := Nat.le_trans h₁.longer h₂.longer

end Grown

section Exec
variable {d d' : Dom} {ref target : Bytes} {id : Nat}

@[simp] theorem node?_bind_self (nodes : List DomNode) (bindings : List (Bytes × Nat)) :
    (Dom.mk nodes ((ref, id) :: bindings)).node? ref = some id := by
  simp [node?]

theorem node?_bind_other (nodes : List DomNode) (bindings : List (Bytes × Nat))
    (other : target ≠ ref) :
    (Dom.mk nodes ((ref, id) :: bindings)).node? target = bindings.lookup target := by
  simp [node?, List.lookup_cons, beq_eq_false_iff_ne.mpr other]

theorem change_eq (bound : d.node? ref = some id) (f : DomNode → DomNode) :
    d.change ref f = some ⟨d.nodes.modify id f, d.bindings⟩ := by
  rw [change, bound]
  rfl

/-- Only creating `ref` binds it to another node. -/
theorem node?_exec {op : DomOp} (h : d.exec op = some d') (other : ∀ tag, op ≠ .create ref tag) :
    d'.node? ref = d.node? ref := by
  have changed {r f} (h : d.change r f = some d') : d'.node? ref = d.node? ref := by
    obtain ⟨id, -, rfl⟩ := Option.map_eq_some_iff.mp h
    rfl
  cases op with
  | create r tag =>
    cases h
    exact node?_bind_other _ _ fun same => other tag (same ▸ rfl)
  | appendChild parent child =>
    obtain ⟨id, -, h⟩ := Option.bind_eq_some_iff.mp h
    exact changed h
  | addText | setAttribute | setFlag | listen => exact changed h
  | run code => cases h

theorem node?_execAll {ops : List DomOp} (h : d.execAll ops = some d')
    (other : ∀ tag, .create ref tag ∉ ops) : d'.node? ref = d.node? ref := by
  induction ops generalizing d with
  | nil => cases h; rfl
  | cons op ops ih =>
    rw [execAll_cons] at h
    obtain ⟨d₁, first, rest⟩ := Option.bind_eq_some_iff.mp h
    rw [ih rest fun tag mem => other tag (List.mem_cons_of_mem _ mem)]
    exact node?_exec first fun tag same => other tag (same ▸ List.mem_cons_self)

theorem grown_modify (d : Dom) (id : Nat) (added : List DomChild) (more : List DomNode)
    (bindings : List (Bytes × Nat)) :
    Grown d ⟨d.nodes.modify id (.addChildren added) ++ more, bindings⟩ id added where
  grown n h := by
    have : id < d.nodes.length := (List.getElem?_eq_some_iff.mp h).1
    rw [List.getElem?_append_left (by simpa using this), List.getElem?_modify, h]
    simp
  kept j n hj h := by
    have : j < d.nodes.length := (List.getElem?_eq_some_iff.mp h).1
    rw [List.getElem?_append_left (by simpa using this), List.getElem?_modify, h]
    simp [Ne.symm hj]
  longer := by simp

/-- Texts are added to their target one after another. -/
theorem execAll_texts (values : List Fragment) (bound : d.node? target = some id) :
    ∃ d', d.execAll (values.map (.addText target)) = some d' ∧
      Grown d d' id (values.map .text) := by
  induction values generalizing d with
  | nil => exact ⟨d, rfl, .refl d id⟩
  | cons v vs ih =>
    have first : d.exec (.addText target v) = some _ := change_eq bound _
    obtain ⟨d', rest, grown⟩ := ih ((node?_exec first (by simp)).trans bound)
    refine ⟨d', by rw [List.map_cons, execAll_cons, first]; exact rest, ?_⟩
    have step := grown_modify d id [.text v] [] d.bindings
    rw [List.append_nil] at step
    exact step.trans grown

theorem exec_setting (s : AttrSetting) : d.exec (s.op target) = d.change target (.addSetting s) := by
  cases s <;> rfl

theorem execAll_settings (settings : List AttrSetting) (nodes : List DomNode) (n : DomNode)
    (bindings : List (Bytes × Nat)) :
    (Dom.mk (nodes ++ [n]) ((ref, nodes.length) :: bindings)).execAll
        (settings.map (AttrSetting.op ref)) =
      some ⟨nodes ++ [{ n with settings := n.settings ++ settings }],
        (ref, nodes.length) :: bindings⟩ := by
  induction settings generalizing n with
  | nil => simp
  | cons s ss ih =>
    have last : (nodes ++ [n]).modify nodes.length (.addSetting s) = nodes ++ [n.addSetting s] := by
      rw [List.modify_eq_take_cons_drop (by simp)]
      simp
    rw [List.map_cons, execAll_cons, exec_setting, change_eq (node?_bind_self _ _), last]
    simp [ih, DomNode.addSetting]

theorem modify_append_left {nodes more : List DomNode} (inside : id < nodes.length)
    (f : DomNode → DomNode) : (nodes ++ more).modify id f = nodes.modify id f ++ more := by
  rw [List.modify_eq_take_cons_drop (by simp; omega), List.modify_eq_take_cons_drop inside,
    List.take_append_of_le_length (by omega), List.drop_append_of_le_length (by omega),
    List.getElem_append_left inside, List.append_assoc, List.cons_append]

/-- An opening tag makes one node and puts it after the children of its parent. -/
theorem execAll_opening (t : Tag) (bound : d.node? target = some id) (other : target ≠ ref)
    (inside : id < d.nodes.length) :
    ∃ d', d.execAll (openingOps target ref t) = some d' ∧
      Grown d d' id [.node d.nodes.length] ∧
      d'.nodes.length = d.nodes.length + 1 ∧
      d'.nodes[d.nodes.length]? =
        some { tag := namedText (t.name.getD []), settings := t.settings } ∧
      d'.node? ref = some d.nodes.length := by
  refine ⟨_, ?_, grown_modify d id [.node d.nodes.length]
    [{ tag := namedText (t.name.getD []), settings := t.settings }]
    ((ref, d.nodes.length) :: d.bindings), ?_, ?_, node?_bind_self _ _⟩
  · rw [openingOps, execAll_cons, exec, Option.bind_some, execAll_append, execAll_settings]
    simp only [Option.bind_some, List.nil_append, execAll_cons, exec, node?_bind_self]
    rw [change_eq ((node?_bind_other _ _ other).trans bound), Option.bind_some, execAll_nil,
      modify_append_left inside]
  · simp
  · rw [List.getElem?_append_right (by simp)]
    simp

/-- A node that is put into `id`, filled, and followed by more children of `id`. -/
theorem shows_element {d₁ d₂ d₃ : Dom} {n : DomNode} {kids added : List DomChild}
    {children rest : Forest} (inside : id < d.nodes.length)
    (opened : Grown d d₁ id [.node d.nodes.length]) (longer : d.nodes.length < d₁.nodes.length)
    (created : d₁.nodes[d.nodes.length]? = some n) (empty : n.children = [])
    (filled : Grown d₁ d₂ d.nodes.length kids) (below : d₂.Shows d₁.nodes.length kids children)
    (followed : Grown d₂ d₃ id added) (after : d₃.Shows d₂.nodes.length added rest) :
    Grown d d₃ id (.node d.nodes.length :: added) ∧
      d₃.Shows d.nodes.length (.node d.nodes.length :: added)
        (.element n.tag n.settings children rest) := by
  refine ⟨(opened.within filled inside (Nat.le_refl _)).trans followed, ?_⟩
  have at_new : d₃.nodes[d.nodes.length]? = some (n.addChildren kids) :=
    followed.kept _ _ (by omega) (filled.grown n created)
  have kids_below : d₃.Shows d.nodes.length (n.addChildren kids).children children := by
    rw [DomNode.addChildren, empty, List.nil_append]
    exact (followed.shows (by omega) below).mono (Nat.le_of_lt longer)
  have younger : d.nodes.length ≤ d₂.nodes.length := by
    have := filled.longer
    omega
  exact Shows.node (n := n.addChildren kids) (Nat.le_refl _) at_new kids_below (after.mono younger)

end Exec

end Dom
end DomTemplate
