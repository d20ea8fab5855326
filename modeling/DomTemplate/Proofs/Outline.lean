import DomTemplate.Template.Parser
import DomTemplate.Proofs.Results

/-! The outline of a document is what is left of it without code, comments, doctypes and
places. Two sources whose masked texts are the same, and whose blocks have the same kinds and
leads, are read to the same outline: every decision of the reader is made on the masked text,
and a block only fills in the place of its mark. How much of its code is compared makes no
difference to the argument, so that documents are first seen through any function on code. -/

namespace DomTemplate

def Part.outline : Part → Part
  | code block => code ⟨block.kind, [], {}⟩
  | p => p

def AttrValue.outline (v : AttrValue) : AttrValue := { v with parts := v.parts.map Part.outline }

def Attribute.outline (a : Attribute) : Attribute where
  name := a.name.map (List.map Part.outline)
  value := a.value.map AttrValue.outline
  pos := {}

def Tag.outline (t : Tag) : Tag :=
  { t with
    name := t.name.map (List.map Part.outline)
    attrs := t.attrs.map (List.map (Option.map Attribute.outline))
    pos := {} }

def Node.outline : Node → Node
  | tag t => tag t.outline
  | text parts => text (parts.map Part.outline)
  | code block => code ⟨block.kind, [], {}⟩
  | comment _ _ => comment [] {}
  | doctype _ _ => doctype [] {}
  | n => n

def Document.outline (doc : Document) : Document := ⟨doc.children.map Node.outline⟩

section Seen
variable (see : Code → Code)

def Part.seen : Part → Part
  | code block => code (see block)
  | p => p

def AttrValue.seen (v : AttrValue) : AttrValue := { v with parts := v.parts.map (Part.seen see) }

def Attribute.seen (a : Attribute) : Attribute where
  name := a.name.map (List.map (Part.seen see))
  value := a.value.map (AttrValue.seen see)
  pos := {}

def Tag.seen (t : Tag) : Tag :=
  { t with
    name := t.name.map (List.map (Part.seen see))
    attrs := t.attrs.map (List.map (Option.map (Attribute.seen see)))
    pos := {} }

def Node.seen : Node → Node
  | tag t => tag (t.seen see)
  | text parts => text (parts.map (Part.seen see))
  | code block => code (see block)
  | comment _ _ => comment [] {}
  | doctype content _ => doctype content {}
  | n => n

/-- The document without places and the texts of comments, its code seen through `see`. -/
def Document.seen (doc : Document) : Document := ⟨doc.children.map (Node.seen see)⟩

end Seen

def Code.outline (block : Code) : Code := ⟨block.kind, [], {}⟩

def Node.withoutDoctype : Node → Node
  | doctype _ _ => doctype [] {}
  | n => n

theorem Node.outline_eq (n : Node) : n.outline = (n.seen Code.outline).withoutDoctype := by
  cases n <;> rfl

/-- Both fail, or both succeed with results of which `f` sees the same. -/
def Agree {α γ : Type} (f : α → γ) (a b : Except Failure α) : Prop :=
  a.toOption.map f = b.toOption.map f

namespace Agree
variable {α β γ δ : Type} {f : α → γ} {g : β → δ}

theorem ok {x y : α} (h : f x = f y) : Agree f (.ok x) (.ok y) := congrArg some h

theorem error (e e' : Failure) : Agree f (.error e) (.error e') := rfl

theorem bind {a b : Except Failure α} {k k' : α → Except Failure β} (h : Agree f a b)
    (next : ∀ x y, f x = f y → Agree g (k x) (k' y)) : Agree g (a >>= k) (b >>= k') := by
  cases a with
  | error e =>
    cases b with
    | error e' => rfl
    | ok y => cases h
  | ok x =>
    cases b with
    | error e' => cases h
    | ok y => exact next x y (Option.some.inj h)

theorem map {a b : Except Failure α} {k k' : α → β} (h : Agree f a b)
    (next : ∀ x y, f x = f y → g (k x) = g (k' y)) : Agree g (a.map k) (b.map k') := by
  cases a with
  | error e =>
    cases b with
    | error e' => rfl
    | ok y => cases h
  | ok x =>
    cases b with
    | error e' => cases h
    | ok y => exact ok (next x y (Option.some.inj h))

theorem mapM {ι : Type} {k k' : ι → Except Failure α} (xs : List ι)
    (each : ∀ x, Agree f (k x) (k' x)) : Agree (List.map f) (xs.mapM k) (xs.mapM k') := by
  induction xs with
  | nil => exact ok rfl
  | cons x xs ih =>
    rw [List.mapM_cons, List.mapM_cons]
    refine (each x).bind fun y y' first => ih.bind fun ys ys' rest => ok ?_
    rw [List.map_cons, List.map_cons, first, rest]

theorem optionMapM {ι : Type} {k k' : ι → Except Failure α} (x : Option ι)
    (each : ∀ x, Agree f (k x) (k' x)) : Agree (Option.map f) (x.mapM k) (x.mapM k') := by
  cases x with
  | none => exact ok rfl
  | some x => exact (each x).bind fun y y' same => ok (congrArg some same)

theorem coarser {f' : α → δ} {a b : Except Failure α} (h : Agree f a b)
    (through : ∀ x y, f x = f y → f' x = f' y) : Agree f' a b := by
  cases a with
  | error e =>
    cases b with
    | error e' => rfl
    | ok y => cases h
  | ok x =>
    cases b with
    | error e' => cases h
    | ok y => exact ok (through x y (Option.some.inj h))

end Agree

/-- Blocks of the same kinds and leads. -/
abbrev SameMarks : List (Nat × Block) → List (Nat × Block) → Prop :=
  List.Forall₂ fun x y => y.2.kind = x.2.kind ∧ y.2.lead = x.2.lead

/-- Blocks of the same leads whose code looks the same, wherever it stands. -/
structure Block.Alike (see : Code → Code) (b b' : Block) : Prop where
  code : ∀ pos pos', see ⟨b'.kind, b'.source, pos'⟩ = see ⟨b.kind, b.source, pos⟩
  lead : b'.lead = b.lead

abbrev AlikeMarks (see : Code → Code) : List (Nat × Block) → List (Nat × Block) → Prop :=
  List.Forall₂ fun x y => x.2.Alike see y.2

/-- First marks that differ in the code of the block at most. -/
inductive FirstMark.Alike (see : Code → Code) : FirstMark → FirstMark → Prop where
  | none : Alike see .none .none
  | malformed : Alike see .malformed .malformed
  | negative (n : Int) : Alike see (.negative n) (.negative n)
  | block {head rest : Bytes} {offset offset' : Nat} {b b' : Block} (alike : b.Alike see b') :
      Alike see (.block head offset b rest) (.block head offset' b' rest)

section
variable {see : Code → Code} {blocks blocks' : List (Nat × Block)}

theorem AlikeMarks.getElem? (same : AlikeMarks see blocks blocks') (n : Nat) :
    (blocks[n]? = none ∧ blocks'[n]? = none) ∨
      ∃ x y, blocks[n]? = some x ∧ blocks'[n]? = some y ∧ x.2.Alike see y.2 := by
  induction same generalizing n with
  | nil => exact .inl ⟨rfl, rfl⟩
  | cons here later ih =>
    cases n with
    | zero => exact .inr ⟨_, _, rfl, rfl, here⟩
    | succ n => exact ih n

theorem firstMark_alike (same : AlikeMarks see blocks blocks') (s : Bytes) :
    (firstMark blocks s).Alike see (firstMark blocks' s) := by
  unfold firstMark
  cases Bytes.cut? markOpen s with
  | none => exact .none
  | some opened =>
    obtain ⟨head, after⟩ := opened
    simp only
    cases Bytes.cut? markClose after with
    | none => exact .malformed
    | some closed =>
      obtain ⟨number, rest⟩ := closed
      simp only
      cases Bytes.int64? number with
      | none => exact .malformed
      | some n =>
        simp only
        split
        · exact .negative n
        · obtain ⟨absent, absent'⟩ | ⟨⟨o, b⟩, ⟨o', b'⟩, found, found', alike⟩ :=
            AlikeMarks.getElem? same n.toNat
          · rw [absent, absent']
            exact .malformed
          · have heads : b'.headOf head = b.headOf head := by
              rw [Block.headOf, Block.headOf, alike.lead]
            rw [found, found']
            simp only [heads]
            exact .block alike

theorem expand_eq (src s : Bytes) (blocks : List (Nat × Block)) :
    expand src blocks s =
      if s.isEmpty then .ok []
      else match firstMark blocks s with
        | .none => .ok [.raw s]
        | .malformed => .error (.refused (.malformedMark s))
        | .negative n => .error (.crashed (.indexOutOfRange n))
        | .block head offset b rest =>
          (expand src blocks rest).map fun parts =>
            let code := Part.code ⟨b.kind, b.source, Pos.ofOffset src offset⟩
            if head.isEmpty then code :: parts else .raw head :: code :: parts := by
  rw [expand]
  split
  · rfl
  · split <;> rename_i first <;> simp only [first]

theorem unmask_eq (s : Bytes) (blocks : List (Nat × Block)) :
    unmask blocks s =
      match firstMark blocks s with
      | .none | .malformed => .ok s
      | .negative n => .error (.crashed (.indexOutOfRange n))
      | .block head _ b rest =>
        (unmask blocks rest).map fun tail => head ++ b.written ++ tail := by
  rw [unmask]
  split <;> rename_i first <;> simp only [first]

/-- A text has the same parts, whatever the code of its blocks. -/
theorem expand_agree (same : AlikeMarks see blocks blocks') (src src' s : Bytes) :
    Agree (List.map (Part.seen see)) (expand src blocks s) (expand src' blocks' s) := by
  induction length : s.length using Nat.strongRecOn generalizing s with
  | ind size ih =>
    rw [expand_eq, expand_eq]
    split
    · exact .ok rfl
    · have alike := firstMark_alike same s
      have shorter := @length_rest_firstMark blocks s
      generalize firstMark blocks s = first, firstMark blocks' s = other at alike shorter
      cases alike with
      | none => exact .ok rfl
      | malformed | negative => exact .error _ _
      | @block head rest offset offset' b b' alike =>
        have less := shorter rfl
        have code := alike.code (.ofOffset src offset) (.ofOffset src' offset')
        refine (ih rest.length (by omega) rest rfl).map fun parts parts' tails => ?_
        by_cases empty : head.isEmpty <;> simp [empty, Part.seen, code, tails]

theorem unmask_agree (same : AlikeMarks see blocks blocks') (s : Bytes) :
    Agree (fun _ => ()) (unmask blocks s) (unmask blocks' s) := by
  induction length : s.length using Nat.strongRecOn generalizing s with
  | ind size ih =>
    rw [unmask_eq, unmask_eq]
    have alike := firstMark_alike same s
    have shorter := @length_rest_firstMark blocks s
    generalize firstMark blocks s = first, firstMark blocks' s = other at alike shorter
    cases alike with
    | none | malformed => exact .ok rfl
    | negative => exact .error _ _
    | @block head rest offset offset' b b' alike =>
      have less := shorter rfl
      exact (ih rest.length (by omega) rest rfl).map fun _ _ _ => rfl

end

namespace MaskedSource
variable {see : Code → Code} {m m' : MaskedSource}

theorem attr_agree (same : AlikeMarks see m.masked.blocks m'.masked.blocks) (start start' : Nat)
    (a : RawAttribute) : Agree (Attribute.seen see) (m.attr start a) (m'.attr start' a) := by
  refine (expand_agree same _ _ _).bind fun name name' names => ?_
  refine (Agree.optionMapM (f := AttrValue.seen see) a.value fun v => ?_).bind
    fun value value' values => ?_
  · refine (expand_agree same _ _ _).bind fun parts parts' texts => .ok ?_
    simp only [AttrValue.seen, texts]
  · refine .ok ?_
    simp only [Attribute.seen, Option.map_some, names, values]

theorem tag_agree (same : AlikeMarks see m.masked.blocks m'.masked.blocks) (raw : Bytes)
    (start start' opener : Nat) (closing solidus : Bool) :
    Agree (Tag.seen see) (m.tag raw start opener closing solidus)
      (m'.tag raw start' opener closing solidus) := by
  refine (expand_agree same _ _ _).bind fun name name' names => ?_
  have assembled {attrs attrs' : List Attribute}
      (settings : attrs.map (Attribute.seen see) = attrs'.map (Attribute.seen see)) :
      Tag.seen see ⟨some name, if attrs.isEmpty then none else some (attrs.map some), closing,
          solidus, m.pos start⟩ =
        Tag.seen see ⟨some name', if attrs'.isEmpty then none else some (attrs'.map some), closing,
          solidus, m'.pos start'⟩ := by
    have empty : attrs.isEmpty = attrs'.isEmpty := by
      rw [← List.isEmpty_map (f := Attribute.seen see), settings, List.isEmpty_map]
    have lists : (attrs.map some).map (Option.map (Attribute.seen see)) =
        (attrs'.map some).map (Option.map (Attribute.seen see)) := by
      have wrapped := congrArg (List.map some) settings
      simpa [List.map_map, Function.comp_def] using wrapped
    simp only [Tag.seen, Option.map_some, names, empty]
    cases attrs'.isEmpty
    · simp [lists]
    · rfl
  dsimp only
  split
  · exact .ok (assembled rfl)
  · exact (Agree.mapM _ fun a => attr_agree same _ _ a).bind fun _ _ settings =>
      .ok (assembled settings)

theorem node?_agree (same : AlikeMarks see m.masked.blocks m'.masked.blocks) (start start' : Nat)
    (t : Markup.Token) :
    Agree (Option.map (Node.seen see)) (m.node? start t) (m'.node? start' t) := by
  cases t with
  | text raw shown =>
    refine (expand_agree same _ _ _).bind fun parts parts' texts => .ok ?_
    have empty : parts.isEmpty = parts'.isEmpty := by
      rw [← List.isEmpty_map (f := Part.seen see), texts, List.isEmpty_map]
    rw [empty]
    cases parts'.isEmpty
    · simp [Node.seen, texts]
    · rfl
  | startTag raw parts =>
    exact (tag_agree same _ _ _ _ _ _).bind fun t t' tags => .ok (by simp [Node.seen, tags])
  | endTag raw =>
    exact (tag_agree same _ _ _ _ _ _).bind fun t t' tags => .ok (by simp [Node.seen, tags])
  | comment raw text => exact (unmask_agree same text).bind fun _ _ _ => .ok rfl
  | doctype raw text => exact .ok rfl
  | unfinished raw => exact .error _ _

theorem nodes_seen (same : AlikeMarks see m.masked.blocks m'.masked.blocks) (start start' : Nat)
    (ts : List Markup.Token) :
    Agree (List.map (Node.seen see)) (m.nodes start ts) (m'.nodes start' ts) := by
  induction ts generalizing start start' with
  | nil => exact .ok rfl
  | cons t ts ih =>
    refine (node?_agree same start start' t).bind fun n n' first => ?_
    refine (ih _ _).bind fun ns ns' rest => .ok ?_
    rw [List.map_append, List.map_append, rest, ← Option.toList_map, ← Option.toList_map, first]

theorem nodes_agree (same : SameMarks m.masked.blocks m'.masked.blocks) (start start' : Nat)
    (ts : List Markup.Token) :
    Agree (List.map Node.outline) (m.nodes start ts) (m'.nodes start' ts) := by
  have alike : AlikeMarks Code.outline m.masked.blocks m'.masked.blocks :=
    same.imp fun x y h => ⟨fun pos pos' => by rw [Code.outline, Code.outline, h.1], h.2⟩
  refine (nodes_seen alike start start' ts).coarser fun ns ns' seen => ?_
  have blanked := congrArg (List.map Node.withoutDoctype) seen
  simpa only [List.map_map, Function.comp_def, ← Node.outline_eq] using blanked

end MaskedSource

/-- A document that is read is that of the tokens of the masked source. -/
theorem Document.parse_ok {d : Delimiters} {src : Bytes} {doc : Document}
    (h : Document.parse d src = .ok doc) :
    reservedOffset? src = none ∧ ∃ m, Masked.ofSource d src = .ok m ∧
      MaskedSource.nodes ⟨src, m⟩ 0 (Markup.tokens m.text) = .ok doc.children := by
  rw [Document.parse] at h
  split at h
  · cases h
  split at h
  · cases h
  · rename_i clean _ m masked
    obtain ⟨ns, nodes, rfl⟩ := exists_of_map_ok h
    exact ⟨clean, m, masked, nodes⟩

end DomTemplate
