import DomTemplate.Proofs.Step
import DomTemplate.Proofs.Validity

/-! Which documents compile, and which tag is to blame if one does not. The answer is read
off the tags alone, with a stack of the open ones: their sources decide whether a closing tag
matches, and the first tag that fails, or else the innermost tag that is left open, is the
one that the error names. -/

namespace DomTemplate

/-- Why a tag does not close the innermost of the open tags. -/
def closingFailure (opened : List (Bytes × Pos)) (t : Tag) : TemplateError :=
  .unbalancedTag t.pos t.source ((opened.head?.map Prod.fst).getD [])
    (if opened.any (·.1 == t.source) then .mismatch
     else if Markup.isVoid t.source then .void
     else .stray)

/-- Reads the tags in order, with the sources and places of the open ones, innermost first. -/
def balance : List (Bytes × Pos) → List Node → Except TemplateError Unit
  | [], [] => .ok ()
  | (tag, pos) :: _, [] => .error (.unbalancedTag pos tag [] .unclosed)
  | opened, .tag t :: ns =>
    if t.closing then
      if opened.head?.map Prod.fst = some t.source then balance opened.tail ns
      else .error (closingFailure opened t)
    else if isVoidName (t.name.getD []) then balance opened ns
    else balance ((t.source, t.pos) :: opened) ns
  | opened, _ :: ns => balance opened ns

theorem balance_leaf {n : Node} (plain : ∀ t, n ≠ .tag t) (opened : List (Bytes × Pos))
    (ns : List Node) : balance opened (n :: ns) = balance opened ns := by
  cases n with
  | tag t => exact absurd rfl (plain t)
  | _ => cases opened <;> rfl

theorem balance_tag (t : Tag) (opened : List (Bytes × Pos)) (ns : List Node) :
    balance opened (.tag t :: ns) =
      if t.closing then
        if opened.head?.map Prod.fst = some t.source then balance opened.tail ns
        else .error (closingFailure opened t)
      else if isVoidName (t.name.getD []) then balance opened ns
      else balance ((t.source, t.pos) :: opened) ns := by
  cases opened <;> rfl

namespace Compile

/-- An open element as its tag shows it. -/
def OpenElement.mark (e : OpenElement) : Bytes × Pos := (e.tag, e.pos)

theorem isElement_iff {f : Frame} : f.isElement = true ↔ f.element.tag ≠ [] := by
  simp [Frame.isElement, Frame.element]

namespace Standing
variable {root : Bytes} {opened : List OpenElement} {scopes : Scopes}

theorem openElement?_eq (h : Standing root opened scopes) (tagged : ∀ e ∈ opened, e.tag ≠ []) :
    scopes.openElement?.map (fun f => (f.tag, f.pos)) = (opened.map OpenElement.mark).head? := by
  cases h with
  | @document d target transparent =>
    simp [Scopes.openElement?, Frame.isElement, transparent]
  | @element f opened outer within =>
    have element : f.isElement = true := isElement_iff.mpr (tagged _ List.mem_cons_self)
    simp [Scopes.openElement?, element, OpenElement.mark, Frame.element]

theorem lookup?_eq (h : Standing root opened scopes) (tagged : ∀ e ∈ opened, e.tag ≠ [])
    (tag : Bytes) :
    (scopes.lookup? tag).isSome = (opened.map OpenElement.mark).any (·.1 == tag) := by
  induction h with
  | @document d target transparent =>
    simp [Scopes.lookup?, Frame.isElement, transparent]
  | @element f opened outer within ih =>
    have element : f.isElement = true := isElement_iff.mpr (tagged _ List.mem_cons_self)
    have rest := ih fun e mem => tagged e (List.mem_cons_of_mem _ mem)
    rw [List.map_cons, List.any_cons, ← rest]
    by_cases same : f.tag = tag
    · simp [Scopes.lookup?, element, same, OpenElement.mark, Frame.element]
    · simp [Scopes.lookup?, element, same, OpenElement.mark, Frame.element]

/-- The innermost scope belongs to the open element of the given tag. -/
theorem matches_iff {f : Frame} {outer : Scopes} (h : Standing root opened (f :: outer))
    (tagged : ∀ e ∈ opened, e.tag ≠ []) (tag : Bytes) :
    (f.isElement = true ∧ f.tag = tag) ↔
      (opened.map OpenElement.mark).head?.map Prod.fst = some tag := by
  cases h with
  | document target transparent => simp [Frame.isElement, transparent]
  | @element f opened outer within =>
    have element : f.isElement = true := isElement_iff.mpr (tagged _ List.mem_cons_self)
    simp [element, OpenElement.mark, Frame.element]

/-- A closing tag that does not match is refused for the reason that the open tags give. -/
theorem closingFailure_eq {f : Frame} {outer : Scopes} (h : Standing root opened (f :: outer))
    (tagged : ∀ e ∈ opened, e.tag ≠ []) (t : Tag) :
    TemplateError.unbalancedTag t.pos t.source
        ((Scopes.openElement? (f :: outer)).map Frame.tag |>.getD [])
        (closingFault (f :: outer) t.source) =
      closingFailure (opened.map OpenElement.mark) t := by
  have innermost := congrArg (Option.map Prod.fst) (h.openElement?_eq tagged)
  rw [Option.map_map] at innermost
  rw [closingFailure, ← innermost, closingFault, h.lookup?_eq tagged]
  rfl

end Standing

theorem finish_balance {root : Bytes} {opened : List OpenElement} {s : CompileState}
    (standing : Standing root opened s.scopes) (tagged : ∀ e ∈ opened, e.tag ≠ []) :
    (finish s).map (fun _ => ()) = balance (opened.map OpenElement.mark) [] := by
  have length := standing.length_eq
  have innermost := standing.openElement?_eq tagged
  cases opened with
  | nil =>
    rw [finish, if_neg (by simpa using length)]
    obtain ⟨f, outer, nonempty⟩ := standing.ne_nil
    rw [nonempty]
    rfl
  | cons e opened =>
    rw [finish, if_pos (by simp [length])]
    obtain ⟨f, found, same⟩ := Option.map_eq_some_iff.mp innermost
    rw [found, List.map_cons, ← same]
    rfl

theorem source_ne_nil {t : Tag} (valid : t.isValid = true) : t.source ≠ [] := by
  intro empty
  simp [Tag.isValid, empty] at valid

/-- What a valid tag needs to be placed: a name, and a head that compiles. -/
theorem head_of_valid {t : Tag} (valid : t.isValid = true) (ref : Bytes) :
    ∃ name head, t.name = some name ∧ name ≠ [] ∧ alone (tagHead t name ref) ref = .ok head := by
  have source := source_ne_nil valid
  rw [Tag.isValid, Bool.and_assoc, Bool.and_eq_true] at valid
  obtain ⟨-, compiles⟩ := valid
  cases named : t.name with
  | none => simp [Tag.source, named, partsSource] at source
  | some name =>
    rw [named, Option.getD_some, ← isOk_tagHead t name ref] at compiles
    obtain ⟨head, result⟩ := exists_of_isOk compiles
    refine ⟨name, head, rfl, ?_, result⟩
    rintro rfl
    simp [Tag.source, named, partsSource] at source

/-- The verdict on valid children is that of their tags, whatever is open before them. -/
theorem each_balance {options : CompileOptions} {root : Bytes} {ns : List Node}
    {opened : List OpenElement} {s : CompileState} (valid : ∀ n ∈ ns, n.isValid = true)
    (standing : Standing root opened s.scopes) (tagged : ∀ e ∈ opened, e.tag ≠ []) :
    ((each (node options) ns s).bind fun r => finish r.2).map (fun _ => ()) =
      balance (opened.map OpenElement.mark) ns := by
  induction ns generalizing s opened with
  | nil => exact finish_balance standing tagged
  | cons n ns ih =>
    obtain ⟨scopes, issued⟩ := s
    obtain ⟨f, outer, rfl⟩ := standing.ne_nil
    have here := valid n List.mem_cons_self
    have later : ∀ m ∈ ns, m.isValid = true := fun m mem => valid m (List.mem_cons_of_mem _ mem)
    rw [each_cons]
    simp only [bind, StateT.bind]
    by_cases plain : ∀ t, n ≠ .tag t
    · rw [place_leaf plain, balance_leaf plain]
      rw [← isOk_leaf plain f.target] at here
      cases result : alone (node options n) f.target with
      | error e => rw [result] at here; cases here
      | ok i => exact ih later (standing.append i) tagged
    · obtain ⟨t, rfl⟩ : ∃ t, n = .tag t := by simpa using plain
      rw [balance_tag]
      -- the innermost frame is that of the last open tag, and both are asked for the closing one
      cases closing : t.closing with
      | true =>
        by_cases same : f.isElement = true ∧ f.tag = t.source
        · rw [if_pos rfl, if_pos ((standing.matches_iff tagged _).mp same), ← List.map_tail]
          cases standing with
          | document target transparent => simp [Frame.isElement, transparent] at same
          | @element f opened outer within =>
            obtain ⟨g, outer, rfl⟩ := within.ne_nil
            rw [place_matching closing same.1 same.2]
            exact ih later (within.append _) fun e mem => tagged e (List.mem_cons_of_mem _ mem)
        · rw [if_pos rfl, if_neg (mt (standing.matches_iff tagged _).mpr same),
            place_mismatched closing same, standing.closingFailure_eq tagged]
          rfl
      | false =>
        have opening : t.isValid = true := by simpa [Node.isValid, closing] using here
        obtain ⟨name, head, named, nonempty, result⟩ :=
          head_of_valid opening (nextRef options issued (t.name.getD []))
        rw [named, Option.getD_some] at result
        rw [if_neg Bool.false_ne_true, place_opening f outer closing named nonempty, result,
          named, Option.getD_some]
        cases void : isVoidName name with
        | true =>
          simp only [Except.map, Except.bind, if_true]
          exact ih later (standing.append _) tagged
        | false =>
          simp only [Except.map, Except.bind, Bool.false_eq_true, if_false]
          have inside := Standing.element (f := elementFrame t (nextRef options issued name) head)
            standing
          refine ih (s := ⟨_ :: _, _⟩) later inside fun e mem => ?_
          rcases List.mem_cons.mp mem with rfl | mem
          · exact source_ne_nil opening
          · exact tagged e mem

theorem partsSource_of_static {name : List Part} {text : Bytes} (h : staticName? name = some text) :
    partsSource name = text := by
  induction name generalizing text with
  | nil => cases h; rfl
  | cons p ps ih =>
    cases p with
    | raw value =>
      obtain ⟨rest, static, rfl⟩ := Option.map_eq_some_iff.mp h
      rw [← ih static]
      rfl
    | absent | code | misplaced => cases h

theorem source_ne_nil_of_void {name : List Part} (void : isVoidName name = true) :
    partsSource name ≠ [] := by
  intro empty
  cases static : staticName? name with
  | none => rw [isVoidName, static] at void; cases void
  | some text =>
    rw [isVoidName, static, ← partsSource_of_static static, empty] at void
    exact absurd void (by decide)

theorem valid_of_head {t : Tag} {name : List Part} {ref : Bytes}
    {head : Container Intent × Container Intent} (named : t.name = some name)
    (source : t.source ≠ []) (result : alone (tagHead t name ref) ref = .ok head) :
    t.isValid = true := by
  have compiles := isOk_tagHead t name ref
  rw [result] at compiles
  simp only [Tag.isValid, named, Option.getD_some, Bool.and_assoc, ← compiles]
  simpa [Except.isOk, Except.toBool] using source

/-- Children that compile and leave nothing open are valid, and every tag open before them
can be closed. -/
theorem valid_of_each {options : CompileOptions} {root : Bytes} {ns : List Node}
    {opened : List OpenElement} {s s' : CompileState} (standing : Standing root opened s.scopes)
    (h : each (node options) ns s = .ok ((), s')) (done : s'.scopes.length = 2) :
    (∀ e ∈ opened, e.tag ≠ []) ∧ ∀ n ∈ ns, n.isValid = true := by
  induction ns generalizing s opened with
  | nil =>
    cases h
    have closed : opened = [] := List.length_eq_zero_iff.mp (by have := standing.length_eq; omega)
    simp [closed]
  | cons n ns ih =>
    obtain ⟨scopes, issued⟩ := s
    obtain ⟨f, outer, rfl⟩ := standing.ne_nil
    obtain ⟨mid, placed, rest⟩ := each_cons_ok h
    rw [List.forall_mem_cons]
    cases placed with
    | leaf plain result =>
      obtain ⟨tagged, later⟩ := ih (standing.append _) rest
      refine ⟨tagged, ?_, later⟩
      rw [← @isOk_leaf options _ plain f.target, result]
      rfl
    | @void t name f outer issued ref head opening named nonempty void fresh result =>
      obtain ⟨tagged, later⟩ := ih (standing.append _) rest
      refine ⟨tagged, ?_, later⟩
      have source : t.source ≠ [] := by
        rw [Tag.source, named]
        exact source_ne_nil_of_void void
      simp [Node.isValid, valid_of_head named source result]
    | @opened t name scopes issued ref head opening named nonempty void fresh result =>
      obtain ⟨tagged, later⟩ := ih (.element standing) rest
      rw [List.forall_mem_cons] at tagged
      exact ⟨tagged.2, by simp [Node.isValid, valid_of_head named tagged.1 result], later⟩
    | @closed t f g outer issued closing element same =>
      obtain ⟨tagged, later⟩ := ih ((standing.close element).append _) rest
      refine ⟨?_, by simp [Node.isValid, closing], later⟩
      cases standing with
      | document target transparent => simp [Frame.isElement, transparent] at element
      | element within => exact List.forall_mem_cons.mpr ⟨isElement_iff.mp element, tagged⟩

end Compile

theorem balance_error {opened : List (Bytes × Pos)} {ns : List Node} {e : TemplateError}
    (h : balance opened ns = .error e) :
    ∃ pos tag innermost fault, e = .unbalancedTag pos tag innermost fault := by
  induction ns generalizing opened with
  | nil =>
    cases opened with
    | nil => cases h
    | cons o opened => cases h; exact ⟨_, _, _, _, rfl⟩
  | cons n ns ih =>
    by_cases plain : ∀ t, n ≠ .tag t
    · rw [balance_leaf plain] at h
      exact ih h
    · obtain ⟨t, rfl⟩ : ∃ t, n = .tag t := by simpa using plain
      rw [balance_tag] at h
      split_ifs at h
      · exact ih h
      · cases h; exact ⟨_, _, _, _, rfl⟩
      · exact ih h
      · exact ih h

/-- A document compiles if its children are valid and its tags balance. The verdict on valid
children is that of their tags, and an error is always about a tag. -/
theorem Document.compile_balance (options : CompileOptions) (doc : Document) :
    ((doc.compile options).isOk = true ↔
      (∀ n ∈ doc.children, n.isValid = true) ∧ balance [] doc.children = .ok ()) ∧
    ((∀ n ∈ doc.children, n.isValid = true) →
      (doc.compile options).map (fun _ => ()) = balance [] doc.children ∧
      ∀ e, doc.compile options = .error e →
        ∃ pos tag innermost fault, e = .unbalancedTag pos tag innermost fault) := by
  have verdict (valid : ∀ n ∈ doc.children, n.isValid = true) :
      (doc.compile options).map (fun _ => ()) = balance [] doc.children := by
    rw [Compile.compile_eq]
    exact Compile.each_balance valid (Compile.standing_initial options) (by simp)
  refine ⟨⟨fun accepted => ?_, ?_⟩, fun valid => ⟨verdict valid, fun e refused => ?_⟩⟩
  · cases compiled : doc.compile options with
    | error e => rw [compiled] at accepted; cases accepted
    | ok c =>
      obtain ⟨d, r, issued, run, -⟩ := Compile.compile_ok compiled
      have valid := (Compile.valid_of_each (Compile.standing_initial options) run rfl).2
      refine ⟨valid, ?_⟩
      rw [← verdict valid, compiled]
      rfl
  · rintro ⟨valid, balanced⟩
    have accepted := verdict valid
    rw [balanced] at accepted
    cases compiled : doc.compile options with
    | error e => rw [compiled] at accepted; cases accepted
    | ok c => rfl
  · have failed := verdict valid
    rw [refused] at failed
    exact balance_error failed.symm

/-- `<ul><li>a<br></ul></li>`: the tags cross. -/
def crossedTags : Document where
  children := [
    .tag ⟨some [.raw (utf8 "ul")], none, false, false, ⟨0, 1, 1⟩⟩,
    .tag ⟨some [.raw (utf8 "li")], none, false, false, ⟨4, 1, 5⟩⟩,
    .text [.raw (utf8 "a")],
    .tag ⟨some [.raw (utf8 "br")], none, false, false, ⟨9, 1, 10⟩⟩,
    .tag ⟨some [.raw (utf8 "ul")], none, true, false, ⟨13, 1, 14⟩⟩,
    .tag ⟨some [.raw (utf8 "li")], none, true, false, ⟨18, 1, 19⟩⟩]

/-- The first closing tag is to blame, since the list item is still open in it. -/
theorem Document.compile_balance_crossed :
    (∀ n ∈ crossedTags.children, n.isValid = true) ∧
      (crossedTags.compile { root := [], elementPrefix := [] }).map (fun _ => ()) =
        .error (.unbalancedTag ⟨13, 1, 14⟩ (utf8 "ul") (utf8 "li") .mismatch) := by
  have valid : ∀ n ∈ crossedTags.children, n.isValid = true := by decide
  refine ⟨valid, ?_⟩
  rw [((crossedTags.compile_balance _).2 valid).1]
  rfl

end DomTemplate
