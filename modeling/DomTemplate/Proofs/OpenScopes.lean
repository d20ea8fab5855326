import DomTemplate.Proofs.Step

/-! The scopes mirror the tags that are open. Which tags are open after some children is said
of the children alone: an opening tag is still open if what follows it has no closing tag to
spare. The scopes then are a frame for each of these tags, the frame of the document and the
root frame. All that is compiled inside a tag keeps to frames of its own. -/

namespace DomTemplate

/-- The number of closing tags whose opening tags stand before the given children. -/
def unopened : List Node → Nat
  | [] => 0
  | .tag t :: ns =>
    if t.closing then unopened ns + 1
    else if isVoidName (t.name.getD []) then unopened ns
    else unopened ns - 1
  | _ :: ns => unopened ns

namespace Compile

/-- The tags that are open after the given children, in order of opening and with the
references of their elements, if elements of the stems `issued` were named before. -/
def openTags (options : CompileOptions) (issued : List Bytes) : List Node → List (Tag × Bytes)
  | [] => []
  | .tag t :: ns =>
    if t.closing then openTags options issued ns
    else
      let name := t.name.getD []
      let later := openTags options (tagStem name :: issued) ns
      if isVoidName name = false ∧ unopened ns = 0 then (t, nextRef options issued name) :: later
      else later
  | _ :: ns => openTags options issued ns

/-- The frame of a tag that is open: an element frame, which starts with what the tag creates. -/
structure IsFrameOf (t : Tag) (ref : Bytes) (f : Frame) : Prop where
  target : f.target = ref
  tag : f.tag = t.source
  pos : f.pos = t.pos
  element : f.isElement = true
  first : ∃ name head later, t.name = some name ∧ alone (tagHead t name ref) ref = .ok head ∧
    f.nodes = creation ref head :: later

/-- The scopes while the given tags are open, innermost first. -/
inductive Mirrors (root : Bytes) : List (Tag × Bytes) → Scopes → Prop where
  | document (nodes : List Intent) : Mirrors root [] [{ target := root, nodes }, { target := root }]
  | element {t : Tag} {ref : Bytes} {f : Frame} {opened : List (Tag × Bytes)} {outer : Scopes}
      (own : IsFrameOf t ref f) (within : Mirrors root opened outer) :
      Mirrors root ((t, ref) :: opened) (f :: outer)

namespace Mirrors
variable {options : CompileOptions} {root : Bytes} {opened : List (Tag × Bytes)} {ns : List Node}
  {s s' : CompileState}

theorem append {f : Frame} {outer : Scopes} (h : Mirrors root opened (f :: outer)) (n : Intent) :
    Mirrors root opened (f.append n :: outer) := by
  cases h with
  | document nodes => exact .document (nodes ++ [n])
  | element own within =>
    obtain ⟨name, head, later, named, result, first⟩ := own.first
    exact .element { own with
      first := ⟨name, head, later ++ [n], named, result, by simp [Frame.append, first]⟩ } within

/-- One child moves the scopes as it moves the tags that are open, whatever follows it. -/
theorem place {n : Node} (h : Mirrors root opened s.scopes) (placed : Placed options n s s')
    (tagged : ∀ t, n = .tag t → t.source ≠ []) :
    ∃ opened', Mirrors root opened' s'.scopes ∧ ∀ ns,
      (openTags options s.issued (n :: ns)).reverse ++ opened.drop (unopened (n :: ns)) =
        (openTags options s'.issued ns).reverse ++ opened'.drop (unopened ns) := by
  cases placed with
  | @leaf n f outer issued i plain result =>
    refine ⟨opened, h.append i, fun ns => ?_⟩
    cases n with
    | tag t => exact absurd rfl (plain t)
    | _ => rfl
  | @void t name f outer issued ref head opening named nonempty void fresh result =>
    refine ⟨opened, h.append _, fun ns => ?_⟩
    simp [openTags, unopened, opening, named, void]
  | @opened t name scopes issued ref head opening named nonempty void fresh result =>
    have element : (elementFrame t ref head).isElement = true := by
      simpa [Frame.isElement, elementFrame] using tagged t rfl
    have own : IsFrameOf t ref (elementFrame t ref head) :=
      ⟨rfl, rfl, rfl, element, name, head, [], named, result, rfl⟩
    refine ⟨(t, ref) :: opened, .element own h, fun ns => ?_⟩
    -- a closing tag to spare among the children that follow is the one of this tag
    cases spare : unopened ns <;> simp [openTags, unopened, opening, named, void, spare, fresh]
  | @closed t f g outer issued closing element same =>
    cases h with
    | document nodes => simp [Frame.isElement] at element
    | element own within =>
      refine ⟨_, within.append _, fun ns => ?_⟩
      simp [openTags, unopened, closing]

theorem each (h : Mirrors root opened s.scopes) (tagged : ∀ t, .tag t ∈ ns → t.source ≠ [])
    (run : each (node options) ns s = .ok ((), s')) :
    Mirrors root ((openTags options s.issued ns).reverse ++ opened.drop (unopened ns)) s'.scopes := by
  induction ns generalizing s opened with
  | nil =>
    cases run
    exact h
  | cons n ns ih =>
    obtain ⟨scopes, issued⟩ := s
    obtain ⟨f, outer, rfl⟩ : ∃ f outer, scopes = f :: outer := by
      cases h <;> exact ⟨_, _, rfl⟩
    obtain ⟨mid, placed, rest⟩ := each_cons_ok run
    obtain ⟨opened', inside, same⟩ := h.place placed fun t here => tagged t (here ▸ List.mem_cons_self)
    rw [same]
    exact ih inside (fun t mem => tagged t (List.mem_cons_of_mem _ mem)) rest

end Mirrors

/-- `m` leaves every scope as it was. -/
def Restores {α : Type} (m : Compile α) : Prop :=
  ∀ (f : Frame) (outer : Scopes) (issued : List Bytes) (a : α) (s : CompileState),
    m ⟨f :: outer, issued⟩ = .ok (a, s) → s = ⟨f :: outer, issued⟩

/-- After any number of parts, the scopes are as they were below one frame of the run's own. -/
def KeepsToOwnFrame {α : Type} (compile : α → Compile Intent) : Prop :=
  ∀ (parts : List α) (scopes : Scopes) (target : Bytes) (issued : List Bytes) (s : CompileState),
    each compile parts ⟨scopes.push target, issued⟩ = .ok ((), s) →
      ∃ nodes, s = ⟨{ target, nodes } :: scopes, issued⟩

section
variable {α : Type}

theorem Transparent.restores {m : Compile α} (h : Transparent m) : Restores m := by
  intro f outer issued a s run
  rw [h] at run
  obtain ⟨b, -, same⟩ := exists_of_map_ok run
  cases same
  rfl

theorem keepsToOwnFrame {compile : α → Compile Intent} (h : ∀ p, Transparent (compile p)) :
    KeepsToOwnFrame compile := by
  intro parts scopes target issued s run
  rw [Scopes.push, each_transparent h] at run
  obtain ⟨nodes, -, same⟩ := exists_of_map_ok run
  cases same
  exact ⟨nodes, rfl⟩

end

/-- After any children of a document the scopes mirror the tags that are open. A text run, a
name, an attribute list and an attribute use frames of their own, and restore the scopes. -/
theorem scopes_mirror_open_tags (options : CompileOptions) (doc : Document)
    (tagged : ∀ t, .tag t ∈ doc.children → t.source ≠ []) :
    (∀ ns s, ns <+: doc.children → each (node options) ns (initial options) = .ok ((), s) →
      Mirrors options.mount (openTags options [] ns).reverse s.scopes) ∧
    (KeepsToOwnFrame textPart ∧ (∀ refusal, KeepsToOwnFrame (literalPart refusal)) ∧
      (∀ a, KeepsToOwnFrame (handlerPart a)) ∧ KeepsToOwnFrame attr) ∧
    (∀ parts, Restores (text parts)) ∧
    (∀ refusal name, Restores (inScope name (literalPart refusal))) ∧
    (∀ attrs, Restores (inScope attrs attr)) ∧ ∀ a, Restores (attr a) := by
  refine ⟨fun ns s start run => ?_, ⟨keepsToOwnFrame transparent_textPart,
    fun refusal => keepsToOwnFrame (transparent_literalPart refusal),
    fun a => keepsToOwnFrame (transparent_handlerPart a), keepsToOwnFrame transparent_attr⟩,
    fun parts => (transparent_text parts).restores,
    fun refusal name => (transparent_inScope (transparent_literalPart refusal) name).restores,
    fun attrs => (transparent_inScope transparent_attr attrs).restores,
    fun a => (transparent_attr a).restores⟩
  have first : Mirrors options.mount [] (initial options).scopes := .document []
  have mirrors := first.each (fun t mem => tagged t (start.subset mem)) run
  rwa [List.drop_nil, List.append_nil] at mirrors

/-- `<ul><li></li><br><li></ul>`: the last tag does not match. -/
def unfinishedList : Document :=
  let tag (name : String) (closing : Bool) (offset : Nat) : Node :=
    .tag ⟨some [.raw (utf8 name)], none, closing, false, ⟨offset, 1, offset + 1⟩⟩
  ⟨[tag "ul" false 0, tag "li" false 4, tag "li" true 8, tag "br" false 13, tag "li" false 17,
    tag "ul" true 21]⟩

/-- Before it the list and its second item are open. -/
theorem scopes_mirror_open_tags_list :
    let options : CompileOptions := ⟨[], [], id⟩
    let ns := unfinishedList.children.take 5
    (∀ t, .tag t ∈ unfinishedList.children → t.source ≠ []) ∧
      (openTags options [] ns).map (fun e => (e.1.source, e.1.pos.offset, e.2)) =
        [(utf8 "ul", 0, utf8 "ul_1"), (utf8 "li", 17, utf8 "li_2")] ∧
      ∃ s, each (node options) ns (initial options) = .ok ((), s) ∧
        Mirrors options.mount (openTags options [] ns).reverse s.scopes := by
  intro options ns
  have tagged : ∀ t, .tag t ∈ unfinishedList.children → t.source ≠ [] := by
    simp [unfinishedList, Tag.source, partsSource]
    decide +kernel
  have compiles : (each (node options) ns (initial options)).isOk = true := by decide +kernel
  refine ⟨tagged, by decide +kernel, ?_⟩
  obtain ⟨⟨⟨⟩, s⟩, run⟩ := exists_of_isOk compiles
  exact ⟨s, run, (scopes_mirror_open_tags options unfinishedList tagged).1 ns s
    (List.take_prefix 5 _) run⟩

end Compile
end DomTemplate
