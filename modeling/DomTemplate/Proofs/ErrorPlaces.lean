import DomTemplate.Pipeline
import DomTemplate.Proofs.Places

/-! What errors point at. The compiler takes the places of its errors from the tags, doctypes and
attributes of its document, be it at hand or in an open scope. The reader places these at bytes that
show: a `<`, the delimiter of a block or of an escape, or a byte of an attribute key; and so are its
own errors. No error points at the end of a line. -/

namespace DomTemplate
open Ascii Bytes

/-- The place of an error, if it has one, is one of `places`. -/
def TemplateError.PlacedIn (places : Pos → Prop) (e : TemplateError) : Prop :=
  ∀ pos, e.position? = some pos → places pos

theorem TemplateError.PlacedIn.of_place {places : Pos → Prop} {e : TemplateError} {pos : Pos} (h : places pos)
    (about : e.position? = if pos.isPlace then some pos else none) : e.PlacedIn places := by
  intro pos' same
  rw [about] at same
  split at same <;> cases same
  exact h

/-- The places of open scopes are among `places`; transparent scopes have none. -/
def Scopes.PlacedIn (places : Pos → Prop) (scopes : Scopes) : Prop :=
  ∀ f ∈ scopes, f.pos.isPlace = true → places f.pos

namespace Compile

/-- A result that is `good`, with scopes that have their places among `places`, or a failure at one of
`places`. -/
def Ends {α : Type} (places : Pos → Prop) (good : α → Prop) : Except TemplateError (α × CompileState) → Prop
  | .ok (a, s) => good a ∧ s.scopes.PlacedIn places
  | .error e => e.PlacedIn places

/-- From scopes with places among `places`, a step ends with such scopes or fails at such a place. -/
def Keeps {α : Type} (places : Pos → Prop) (good : α → Prop) (m : Compile α) : Prop :=
  ∀ s : CompileState, s.scopes.PlacedIn places → Ends places good (m s)

section Steps
variable {α β : Type} {places : Pos → Prop} {good : α → Prop} {fine : β → Prop}

theorem keeps_pure {a : α} (h : good a) : Keeps places good (pure a : Compile α) := fun _ kept => ⟨h, kept⟩

theorem keeps_fail {e : TemplateError} (h : e.PlacedIn places) : Keeps places good (fail e : Compile α) :=
  fun _ _ => h

theorem keeps_bind {m : Compile α} {k : α → Compile β} (first : Keeps places good m)
    (next : ∀ a, good a → Keeps places fine (k a)) : Keeps places fine (m >>= k) := by
  intro s kept
  have after := first s kept
  show Ends places fine ((m s).bind fun r => k r.1 r.2)
  cases result : m s with
  | error e => rwa [result] at after
  | ok r =>
    rw [result] at after
    exact next r.1 after.1 r.2 after.2

/-- A failure over an empty stack has no place. -/
theorem placedIn_emptyScope (use : ScopeUse) : (TemplateError.emptyScope use).PlacedIn places := nofun

theorem keeps_current : Keeps places (fun _ => True) current := by
  intro s kept
  rw [current]
  cases s.scopes with
  | nil => exact placedIn_emptyScope _
  | cons f outer => exact ⟨trivial, kept⟩

theorem keeps_scopes : Keeps places (Scopes.PlacedIn places) scopes := fun _ kept => ⟨kept, kept⟩

theorem keeps_append (n : Intent) : Keeps places (fun _ => True) (append n) := by
  rintro ⟨scopes, issued⟩ kept
  cases scopes with
  | nil => exact placedIn_emptyScope _
  | cons f outer => exact ⟨trivial, List.forall_mem_cons.mpr (List.forall_mem_cons.mp kept)⟩

theorem keeps_pop : Keeps places (fun _ => True) pop := by
  rintro ⟨scopes, issued⟩ kept
  cases scopes with
  | nil => exact placedIn_emptyScope _
  | cons f outer => exact ⟨trivial, (List.forall_mem_cons.mp kept).2⟩

theorem keeps_pushElement {pos : Pos} (h : pos.isPlace = true → places pos) (target tag : Bytes) :
    Keeps places (fun _ => True) (pushElement target tag pos) :=
  fun _ kept => ⟨trivial, List.forall_mem_cons.mpr ⟨h, kept⟩⟩

theorem keeps_push (target : Bytes) : Keeps places (fun _ => True) (push target) :=
  keeps_pushElement nofun target []

theorem keeps_freshRef (options : CompileOptions) (stem : Bytes) :
    Keeps places (fun _ => True) (freshRef options stem) :=
  fun _ kept => ⟨trivial, kept⟩

theorem keeps_each {compile : α → Compile Intent} {parts : List α}
    (each_ : ∀ p ∈ parts, Keeps places (fun _ => True) (compile p)) :
    Keeps places (fun _ => True) (each compile parts) := by
  induction parts with
  | nil => exact keeps_pure trivial
  | cons p parts ih =>
    rw [List.forall_mem_cons] at each_
    exact keeps_bind each_.1 fun n _ => keeps_bind (keeps_append n) fun _ _ => ih each_.2

/-- An element that is left open is known by its scope. -/
theorem keeps_inScope {compile : α → Compile Intent} {parts : List α}
    (each_ : ∀ p ∈ parts, Keeps places (fun _ => True) (compile p)) :
    Keeps places (fun _ => True) (inScope parts compile) := by
  refine keeps_bind keeps_current fun outer _ => keeps_bind keeps_scopes fun before _ => ?_
  refine keeps_bind (keeps_push _) fun _ _ => keeps_bind (keeps_each each_) fun _ _ => ?_
  refine keeps_bind keeps_scopes fun after kept => ?_
  split
  · cases found : after.openElement? with
    | none => exact keeps_fail nofun
    | some f =>
      intro s _ pos about
      rw [TemplateError.position?] at about
      split at about <;> cases about
      rename_i place
      exact kept f (List.mem_of_find?_eq_some found) place
  · exact keeps_bind keeps_pop fun _ _ => keeps_pure trivial

end Steps

section Constructs
variable {places : Pos → Prop}

theorem keeps_literalPart {refusal : TemplateError} (h : refusal.PlacedIn places) (p : Part) :
    Keeps places (fun _ => True) (literalPart refusal p) := by
  cases p with
  | absent | raw value => exact keeps_pure trivial
  | misplaced kind => exact keeps_fail nofun
  | code block =>
    rw [literalPart]
    split
    · exact keeps_fail h
    · exact keeps_pure trivial

theorem keeps_text (parts : List Part) : Keeps places (fun _ => True) (text parts) := by
  refine keeps_bind (keeps_inScope fun p _ => ?_) fun _ _ => keeps_pure trivial
  obtain ⟨after, p, before⟩ := p
  cases p with
  | misplaced kind => exact keeps_fail nofun
  | _ => exact keeps_pure trivial

section Attributes
variable {a : Attribute} (here : places a.pos)
include here

theorem placedIn_invalidAttribute (name : Bytes) (fault : AttributeFault) :
    (TemplateError.invalidAttribute a.pos name fault).PlacedIn places := .of_place here rfl

theorem keeps_handler : Keeps places (fun _ => True) (handler a) := by
  have refused (fault : AttributeFault) : Keeps places (fun _ => True)
      (fail (.invalidAttribute a.pos a.source fault) : Compile (Container Intent)) :=
    keeps_fail (placedIn_invalidAttribute here a.source fault)
  unfold handler
  split
  · exact refused _
  split
  · exact refused _
  · refine keeps_inScope fun p _ => ?_
    cases p with
    | raw value => exact keeps_pure trivial
    | absent | misplaced kind => exact keeps_fail (.of_place here rfl)
    | code block =>
      rw [handlerPart]
      split
      · exact keeps_fail (placedIn_invalidAttribute here _ _)
      · exact keeps_pure trivial
  · exact refused _

theorem keeps_namedAttribute (parts : List Part) :
    Keeps places (fun _ => True) (namedAttribute a parts) := by
  have piece (fault : AttributeFault) (parts : List Part) : Keeps places (fun _ => True)
      (inScope parts (literalPart (.invalidAttribute a.pos a.source fault))) :=
    keeps_inScope fun p _ => keeps_literalPart (placedIn_invalidAttribute here _ _) p
  refine keeps_bind keeps_current fun _ _ => ?_
  dsimp only
  split
  · refine keeps_bind (piece _ _) fun _ _ => ?_
    split
    · exact keeps_fail (placedIn_invalidAttribute here _ _)
    · exact keeps_bind (keeps_handler here) fun _ _ => keeps_pure trivial
  · refine keeps_bind (piece _ _) fun _ _ => ?_
    split
    · exact keeps_pure trivial
    · exact keeps_bind (piece _ _) fun _ _ => keeps_pure trivial

end Attributes

theorem keeps_attr {a : Option Attribute} (here : ∀ b, a = some b → places b.pos) :
    Keeps places (fun _ => True) (attr a) := by
  cases a with
  | none => exact keeps_pure trivial
  | some a =>
    rw [attr]
    split
    · exact keeps_fail (.of_place (here a rfl) rfl)
    · exact keeps_fail (.of_place (here a rfl) rfl)
    · exact keeps_namedAttribute (here a rfl) _

section Tags
variable {options : CompileOptions} {t : Tag} (here : places t.pos)
include here

theorem keeps_closeTag : Keeps places (fun _ => True) (closeTag t) := by
  refine keeps_bind keeps_current fun top _ => ?_
  split
  · exact keeps_bind keeps_pop fun _ _ => keeps_pure trivial
  · exact keeps_bind keeps_scopes fun _ _ => keeps_fail (.of_place here rfl)

theorem keeps_openTag (attributes : ∀ a ∈ (Node.tag t).attributes, places a.pos) (name : List Part) :
    Keeps places (fun _ => True) (openTag options t name) := by
  have set (attrs : List (Option Attribute)) (written : t.attrs = some attrs) :
      Keeps places (fun _ => True) (inScope attrs attr) := by
    refine keeps_inScope fun a mem => keeps_attr fun b same => attributes b ?_
    rw [Node.attributes, written, Option.getD_some, List.mem_filterMap]
    exact ⟨a, mem, same⟩
  refine keeps_bind (keeps_freshRef _ _) fun ref _ => ?_
  refine keeps_bind (keeps_pushElement (fun _ => here) _ _) fun _ _ => ?_
  refine keeps_bind (keeps_inScope fun p _ => keeps_literalPart (.of_place here rfl) p) fun tag _ => ?_
  have finished (setup : Container Intent) : Keeps places (fun _ => True)
      (if isVoidName name then do
        append (.create ref (some tag) (some setup))
        return .container (← pop).container
      else pure (.create ref (some tag) (some setup)) : Compile Intent) := by
    split
    · exact keeps_bind (keeps_append _) fun _ _ => keeps_bind keeps_pop fun _ _ => keeps_pure trivial
    · exact keeps_pure trivial
  cases written : t.attrs with
  | none => exact keeps_bind (keeps_pure trivial) fun setup (_ : True) => finished setup
  | some attrs => exact keeps_bind (set attrs written) fun setup _ => finished setup

theorem keeps_tag (attributes : ∀ a ∈ (Node.tag t).attributes, places a.pos) :
    Keeps places (fun _ => True) (tag options t) := by
  rw [tag]
  split
  · exact keeps_closeTag here
  split
  · exact keeps_fail (.of_place here rfl)
  · exact keeps_fail (.of_place here rfl)
  · exact keeps_openTag here attributes _

end Tags

theorem keeps_node {options : CompileOptions} {n : Node} (here : ∀ pos, n.place? = some pos → places pos)
    (attributes : ∀ a ∈ n.attributes, places a.pos) : Keeps places (fun _ => True) (node options n) := by
  cases n with
  | absent | code block | comment text pos => exact keeps_pure trivial
  | text parts => exact keeps_text parts
  | raw value => exact keeps_text [.raw value]
  | tag t => exact keeps_tag (here t.pos rfl) attributes
  | doctype text pos => exact keeps_fail (.of_place (here pos rfl) rfl)
  | misplaced kind => exact keeps_fail nofun

end Constructs
end Compile

/-- The place of a child, or of one of its attributes. -/
def Node.HasPlace (n : Node) (pos : Pos) : Prop := n.place? = some pos ∨ ∃ a ∈ n.attributes, a.pos = pos

/-- A program opens with a transparent scope. -/
theorem root_placedIn {places : Pos → Prop} (root : Bytes) : (Scopes.ofRoot root).PlacedIn places :=
  List.forall_mem_singleton.mpr nofun

/-- A document is refused at a place of one of its children, if at a place at all. -/
theorem Document.compile_placed {options : CompileOptions} {doc : Document} {e : TemplateError}
    (failed : doc.compile options = .error e) :
    e.PlacedIn fun pos => ∃ n ∈ doc.children, n.HasPlace pos := by
  have kept : Compile.Keeps (fun pos => ∃ n ∈ doc.children, n.HasPlace pos) (fun _ => True)
      (Compile.inScope doc.children (Compile.node options)) :=
    Compile.keeps_inScope fun n mem => Compile.keeps_node (fun pos here => ⟨n, mem, .inl here⟩)
      fun a listed => ⟨n, mem, .inr ⟨a, listed, rfl⟩⟩
  rw [Document.compile] at failed
  generalize (if options.root.isEmpty then defaultRoot else options.root) = root at failed
  have ends := kept { scopes := Scopes.ofRoot root } (root_placedIn root)
  cases result : Compile.inScope doc.children (Compile.node options) { scopes := Scopes.ofRoot root } with
  | ok r => rw [result] at failed; cases failed
  | error refusal =>
    rw [result] at failed ends
    cases failed
    exact ends

/-- Escapes and blocks start with a delimiter. -/
theorem Cut.piece_starts {d : Delimiters} {state : MaskState} {context : BraceContext} {s : Bytes}
    {m : Masked} (cut : Cut d state context s m) {p : Piece} (mem : p ∈ m) :
    (∃ b, p = .byte b) ∨ ∃ b rest, p.written = b :: rest ∧ IsInk b := by
  induction cut with
  | nil => cases mem
  | escape after ih =>
    rcases List.mem_cons.mp mem with rfl | later
    · cases d with
      | brace => exact .inr ⟨backslash, _, rfl, by decide⟩
      | erb => exact .inr ⟨lt, _, rfl, by decide⟩
    · exact ih later
  | block encloses nonempty allowed after ih =>
    rcases List.mem_cons.mp mem with rfl | later
    · cases d with
      | brace => exact .inr ⟨lbrace, _, encloses.1, by decide⟩
      | erb => exact .inr ⟨lt, _, encloses.1, by decide⟩
    · exact ih later
  | byte plain after ih =>
    rcases List.mem_cons.mp mem with rfl | later
    · exact .inl ⟨_, rfl⟩
    · exact ih later

theorem RawAttribute.isInk_key {size : Nat} {s : Bytes} {a : RawAttribute} (mem : a ∈ readAll size s)
    {b : UInt8} {rest : Bytes} (key : a.key = b :: rest) : IsInk b := by
  fun_induction readAll size s with
  | case1 s none => cases mem
  | case2 s cs next => cases mem
  | case3 s c cs next more shorter fewer ih =>
    rcases List.mem_cons.mp mem with rfl | later
    · rw [Markup.keyOf] at key
      have head : c = b := by
        cases size : (c :: cs).length - (Markup.afterKey (c :: cs)).length with
        | zero => rw [size] at key; cases key
        | succ n => rw [size] at key; cases key; rfl
      have outside := Markup.isTagSpace_of_skipSpace next
      rw [head, isTagSpace] at outside
      simp only [Bool.or_eq_false_iff, beq_eq_false_iff_ne] at outside
      exact ⟨outside.1.1.1.2, outside.1.1.2⟩
    · exact ih later

namespace MaskedSource
variable {d : Delimiters} {m : MaskedSource} {front back : Masked}

section
variable (cut : Cut d {} .markup m.src m.masked)
include cut

theorem PlacesAttribute.isShown {start : Nat} {raw : Bytes} {a : Attribute}
    (h : m.PlacesAttribute start raw a) : a.pos.IsShown m.src := by
  obtain ⟨r, front, p, back, listed, -, split, -, named, starts, at_⟩ := h
  rcases cut.piece_starts (p := p) (by simp [split]) with ⟨b, rfl⟩ | ⟨b, rest, written, ink⟩
  · -- a piece that is a byte shows the first byte of the key
    obtain ⟨b', key, keyed⟩ := List.exists_cons_of_ne_nil named
    obtain ⟨tail, whole⟩ := starts
    rw [keyed] at whole
    cases (List.cons.inj whole).1
    have ink := RawAttribute.isInk_key (RawAttribute.mem_of_mem_distinct listed) keyed
    exact isShown_piece cut split at_ rfl ink
  · exact isShown_piece cut split at_ written ink

/-- The places of a node that is read from a source show. -/
theorem Places.isShown {n : Node} (h : m.Places d n) {pos : Pos} (place : n.HasPlace pos) :
    pos.IsShown m.src := by
  obtain ⟨front, back, t, split, -, -, placed, -, attributes⟩ := h
  rcases place with here | ⟨a, mem, rfl⟩
  · obtain ⟨angle, at_⟩ := placed pos here
    obtain ⟨back, rfl⟩ := List.head?_eq_some_iff.mp angle
    exact isShown_piece cut split at_ rfl (by decide)
  · obtain ⟨raw, parts, -, places⟩ := attributes a mem
    exact places.isShown cut

end

end MaskedSource

/-- No template is refused at the end of a line. -/
theorem Pipeline.intents_shown (p : Pipeline) {src : Bytes} {e : TemplateError}
    (refused : p.intents src = .error (.refused e)) : e.PlacedIn (Pos.IsShown src) := by
  have placed := Document.parse_placed p.delimiters src
  rw [intents] at refused
  cases read : Document.parse p.delimiters src with
  | error f =>
    rw [read] at placed refused
    cases refused
    rcases placed with ⟨pos, fault, same, shown⟩ | overMark
    · cases same
      exact .of_place shown rfl
    · -- a failure over a mark has no place
      cases e with
      | malformedMark text => exact nofun
      | _ => cases overMark
  | ok doc =>
    rw [read] at placed refused
    obtain ⟨m, masked, places, -⟩ := placed
    simp only [bind, Except.bind] at refused
    cases compiled : doc.compile p.compileOptions with
    | ok c => rw [compiled] at refused; cases refused
    | error e' =>
      rw [compiled] at refused
      cases refused
      intro pos about
      obtain ⟨n, mem, place⟩ := Document.compile_placed compiled pos about
      exact (places n mem).isShown (Masked.ofSource_ok.mp masked) place

end DomTemplate
