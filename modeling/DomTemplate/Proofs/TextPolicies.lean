import DomTemplate.Proofs.Accumulating
import DomTemplate.Proofs.Rebuild

/-! The two ways in which text reaches the document. With a text node for each fragment the operations of
a template rebuild its tree. When each fragment is added to the text of its target instead, they build
the same elements with the same text as long as no text follows an element under the same parent. Where
one does, it takes the place of all that stands before it. -/

namespace DomTemplate
open Compile

namespace Forest
variable (value : Bytes → Bytes)

variable {value} {before : Forest}

end Forest

namespace Dom
variable {value : Bytes → Bytes} {d d' d₁ d₂ : Dom} {id : Nat} {ref target : Bytes} {ops more : List DomOp}

/-- A reference to a node that is there. -/
def Bound (d : Dom) (ref : Bytes) : Prop := ∃ id, d.node? ref = some id ∧ id < d.nodes.length

theorem length_exec {op : DomOp} (h : d.exec op = some d') : d.nodes.length ≤ d'.nodes.length := by
  have changed {r f} (h : d.change r f = some d') : d.nodes.length ≤ d'.nodes.length := by
    obtain ⟨id, -, rfl⟩ := Option.map_eq_some_iff.mp h
    simp
  cases op with
  | create r tag => cases h; simp
  | appendChild parent child =>
    obtain ⟨id, -, h⟩ := Option.bind_eq_some_iff.mp h
    exact changed h
  | addText | setAttribute | setFlag | listen => exact changed h
  | run code => cases h

theorem Bound.exec {op : DomOp} (bound : d.Bound ref) (h : d.exec op = some d') : d'.Bound ref := by
  by_cases made : ∃ tag, op = .create ref tag
  · obtain ⟨tag, rfl⟩ := made
    cases h
    exact ⟨d.nodes.length, node?_bind_self _ _, by simp⟩
  · obtain ⟨id, found, inside⟩ := bound
    rw [not_exists] at made
    exact ⟨id, (node?_exec h made).trans found, Nat.lt_of_lt_of_le inside (length_exec h)⟩

theorem Bound.execAll (bound : d.Bound ref) (h : d.execAll ops = some d') : d'.Bound ref := by
  induction ops generalizing d with
  | nil => cases h; exact bound
  | cons op ops ih =>
    rw [execAll_cons] at h
    obtain ⟨d₁, first, rest⟩ := Option.bind_eq_some_iff.mp h
    exact ih (bound.exec first) rest

theorem OnlyTexts.execAll (h : d.OnlyTexts target) (values : List Fragment) :
    d.AddsTextFirst (values.map (.addText target)) ∧
      ∀ d', d.execAll (values.map (.addText target)) = some d' → d'.OnlyTexts target := by
  induction values generalizing d with
  | nil =>
    refine ⟨trivial, fun d' same => ?_⟩
    cases same
    exact h
  | cons v vs ih =>
    have kept {d₁ : Dom} (here : d.exec (.addText target v) = some d₁) : d₁.OnlyTexts target := by
      obtain ⟨id, n, us, bound, at_id, texts⟩ := h
      have done := change_eq bound (.addChildren [.text v])
      cases here.symm.trans done
      have grown := (grown_modify d id [.text v] [] d.bindings).grown n at_id
      rw [List.append_nil] at grown
      exact ⟨id, _, us ++ [v], bound, grown, by simp [DomNode.addChildren, texts]⟩
    refine ⟨⟨?_, fun d₁ here => (ih (kept here)).1⟩, fun d' all => ?_⟩
    · rintro _ _ ⟨⟩
      exact h
    · rw [List.map_cons, execAll_cons] at all
      obtain ⟨d₁, here, rest⟩ := Option.bind_eq_some_iff.mp all
      exact (ih (kept here)).2 d' rest

end Dom

namespace Dom
variable {value : Bytes → Bytes} {d d' d₁ d₂ : Dom} {id : Nat} {ref target : Bytes} {ops : List DomOp}

theorem Shows.append {least : Nat} {cs cs' : List DomChild} {f g : Forest} (h : d.Shows least cs f)
    (h' : d.Shows least cs' g) : d.Shows least (cs ++ cs') (f.append g) := by
  induction h with
  | nil => exact h'
  | text after ih => exact .text ih
  | node from_least at_id below after _ ih => exact .node from_least at_id below ih

/-- `d'` is `d` with `n` in place of the node `id`, and with new nodes. -/
structure Replaced (d d' : Dom) (id : Nat) (n : DomNode) : Prop where
  replaced : d'.nodes[id]? = some n
  kept : ∀ j m, j ≠ id → d.nodes[j]? = some m → d'.nodes[j]? = some m
  longer : d.nodes.length ≤ d'.nodes.length

theorem Replaced.trans {n m : DomNode} (h : Replaced d d₁ id n) (h' : Replaced d₁ d₂ id m) :
    Replaced d d₂ id m where
  replaced := h'.replaced
  kept j k hj at_j := h'.kept j k hj (h.kept j k hj at_j)
  longer := Nat.le_trans h.longer h'.longer

end Dom

end DomTemplate
