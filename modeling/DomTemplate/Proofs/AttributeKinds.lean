import DomTemplate.Proofs.KeptText
import DomTemplate.Proofs.Rebuild

/-! Which attributes there are. A name that starts with the literal text `on` asks for an event:
it needs something after the `on` and a single handler, which is used as it stands. Any other
name makes a flag or, with a value, a value, both of them text that is kept as written. Statements
belong to none of these but a handler. An attribute that breaks a rule is refused with its own
place and name, and with the first rule that it breaks. -/

namespace DomTemplate
open Compile

namespace Part

def isComment : Part → Bool
  | code block => block.kind == .comment
  | _ => false

/-- A part of a name or a value: literal text as it stands, an expression by its code. -/
def verbatim : Part → Intent
  | raw value => if value.isEmpty then .ignore else .content value
  | code ⟨.expression, source, _⟩ => .expression source.trim
  | _ => .ignore

/-- The part that an event is handled by: literal text that names the handler, or its code. -/
def handlerIntent : Part → Intent
  | raw value => .content value.trim
  | code block => .expression block.source.trim
  | absent | misplaced _ => .ignore

end Part

/-- There is something in a name: literal text that is not empty, or an expression. -/
def IsCalled (name : List Part) : Prop :=
  (∃ text, .raw text ∈ name ∧ text ≠ []) ∨ ∃ p ∈ name, p.isExpression = true

/-- The name starts with the literal text `on`. -/
def StartsWithOn (name : List Part) : Prop := ∃ event rest, name = .raw (utf8 "on" ++ event) :: rest

namespace AttrValue

/-- The parts of a value, literal text of white space aside. -/
def filled (v : AttrValue) : List Part := v.parts.filter (!isBlankRaw ·)

end AttrValue

namespace Attribute

/-- The name of an event attribute, which starts with `on` and goes on with `event` and `rest`. -/
structure NamesEvent (a : Attribute) (event : Bytes) (rest : List Part) : Prop where
  named : a.name = some (.raw (utf8 "on" ++ event) :: rest)
  plain : ∀ p ∈ rest, p.isStatement = false

/-- The name of any other attribute. -/
structure NamesOther (a : Attribute) (name : List Part) : Prop where
  named : a.name = some name
  other : ¬StartsWithOn name
  plain : ∀ p ∈ name, p.isStatement = false

/-- The attribute stands for an intent on the node `target`. -/
inductive Sets (a : Attribute) (target : Bytes) : Intent → Prop where
  | event {event : Bytes} {rest : List Part} {value : AttrValue} {handler : Part}
      (named : a.NamesEvent event rest) (called : IsCalled (.raw event :: rest))
      (valued : a.value = some value) (single : value.filled = [handler])
      (shown : handler.isComment = false) :
      Sets a target (.attr target .event
        (some ⟨target, (.raw event :: rest).map Part.verbatim⟩)
        (some ⟨target, [handler.handlerIntent]⟩))
  | flag {name : List Part} (named : a.NamesOther name) (bare : a.value = none) :
      Sets a target (.attr target .flag (some ⟨target, name.map Part.verbatim⟩) none)
  | value {name : List Part} {value : AttrValue} (named : a.NamesOther name)
      (valued : a.value = some value) (plain : ∀ p ∈ value.parts, p.isStatement = false) :
      Sets a target (.attr target .value (some ⟨target, name.map Part.verbatim⟩)
        (some ⟨target, value.parts.map Part.verbatim⟩))

/-- The first rule that the attribute breaks. -/
inductive Breaks (a : Attribute) : AttributeFault → Prop where
  | statementInName {name : List Part} {p : Part} (named : a.name = some name) (mem : p ∈ name)
      (statement : p.isStatement = true) : Breaks a .statementInName
  | missingEventName {event : Bytes} {rest : List Part} (named : a.NamesEvent event rest)
      (uncalled : ¬IsCalled (.raw event :: rest)) : Breaks a .missingEventName
  | missingHandler {event : Bytes} {rest : List Part} (named : a.NamesEvent event rest)
      (called : IsCalled (.raw event :: rest))
      (unvalued : ∀ value, a.value = some value → value.filled = []) : Breaks a .missingHandler
  | comment {event : Bytes} {rest : List Part} {value : AttrValue} {handler : Part}
      (named : a.NamesEvent event rest) (called : IsCalled (.raw event :: rest))
      (valued : a.value = some value) (single : value.filled = [handler])
      (hidden : handler.isComment = true) : Breaks a .compoundHandler
  | compound {event : Bytes} {rest : List Part} {value : AttrValue}
      (named : a.NamesEvent event rest) (called : IsCalled (.raw event :: rest))
      (valued : a.value = some value) (several : 1 < value.filled.length) :
      Breaks a .compoundHandler
  | statementInValue {name : List Part} {value : AttrValue} {p : Part} (named : a.NamesOther name)
      (valued : a.value = some value) (mem : p ∈ value.parts) (statement : p.isStatement = true) :
      Breaks a .statementInValue

end Attribute

namespace Compile
variable {target : Bytes} {parts : List Part}

theorem alone_literalPart (refusal : TemplateError) {p : Part} (written : p.isWritten = true)
    (target : Bytes) :
    alone (literalPart refusal p) target =
      if p.isStatement then .error refusal else .ok p.verbatim := by
  cases p with
  | raw value => rfl
  | code block =>
    obtain ⟨kind, source, pos⟩ := block
    cases kind <;> rfl
  | absent | misplaced => cases written

theorem mapM_literalPart (refusal : TemplateError) (written : ∀ p ∈ parts, p.isWritten = true)
    (target : Bytes) :
    (parts.mapM fun p => alone (literalPart refusal p) target) =
      if parts.any Part.isStatement then .error refusal else .ok (parts.map Part.verbatim) := by
  induction parts with
  | nil => rfl
  | cons p ps ih =>
    rw [List.forall_mem_cons] at written
    rw [List.mapM_cons, alone_literalPart refusal written.1, ih written.2, List.any_cons]
    cases p.isStatement with
    | true => rfl
    | false => cases ps.any Part.isStatement <;> rfl

/-- A name or a value is its parts as they stand. -/
theorem alone_pieces (refusal : TemplateError) (written : ∀ p ∈ parts, p.isWritten = true)
    (plain : ∀ p ∈ parts, p.isStatement = false) (target : Bytes) :
    alone (inScope parts (literalPart refusal)) target = .ok ⟨target, parts.map Part.verbatim⟩ := by
  have none : parts.any Part.isStatement = false := by simpa using plain
  rw [alone_inScope (transparent_literalPart refusal), mapM_literalPart refusal written, none]
  rfl

/-- A statement in a name or a value is refused. -/
theorem alone_pieces_statement (refusal : TemplateError) (written : ∀ p ∈ parts, p.isWritten = true)
    {p : Part} (mem : p ∈ parts) (statement : p.isStatement = true) (target : Bytes) :
    alone (inScope parts (literalPart refusal)) target = .error refusal := by
  have some : parts.any Part.isStatement = true := List.any_eq_true.mpr ⟨p, mem, statement⟩
  rw [alone_inScope (transparent_literalPart refusal), mapM_literalPart refusal written, some]
  rfl

theorem verbatim_isIgnore (p : Part) :
    p.verbatim.isIgnore = false ↔ (∃ text, p = .raw text ∧ text ≠ []) ∨ p.isExpression = true := by
  cases p with
  | raw value => cases value <;> simp [Part.verbatim, Part.isExpression, Intent.isIgnore]
  | code block =>
    obtain ⟨kind, source, pos⟩ := block
    cases kind <;> simp [Part.verbatim, Part.isExpression, Intent.isIgnore]
  | absent | misplaced => simp [Part.verbatim, Part.isExpression, Intent.isIgnore]

theorem isCalled_iff (name : List Part) :
    IsCalled name ↔ (name.map Part.verbatim).all Intent.isIgnore = false := by
  simp only [List.all_eq_false, List.mem_map, exists_exists_and_eq_and, Bool.not_eq_true,
    verbatim_isIgnore, IsCalled]
  constructor
  · rintro (⟨text, mem, filled⟩ | ⟨p, mem, expression⟩)
    · exact ⟨_, mem, .inl ⟨text, rfl, filled⟩⟩
    · exact ⟨p, mem, .inr expression⟩
  · rintro ⟨p, mem, ⟨text, rfl, filled⟩ | expression⟩
    · exact .inl ⟨text, mem, filled⟩
    · exact .inr ⟨p, mem, expression⟩

theorem eventName?_on (event : Bytes) (rest : List Part) :
    eventName? (.raw (utf8 "on" ++ event) :: rest) = some (.raw event :: rest) := by
  have dropped : Bytes.dropPrefix? (utf8 "on") (utf8 "on" ++ event) = some event :=
    Bytes.dropPrefix?_eq_some.mpr rfl
  rw [eventName?, dropped]
  rfl

theorem eventName?_other {name : List Part} (other : ¬StartsWithOn name) :
    eventName? name = none := by
  unfold eventName?
  split
  · rename_i value rest
    rw [Option.map_eq_none_iff, ← Option.not_isSome_iff_eq_none, Option.isSome_iff_exists]
    rintro ⟨event, dropped⟩
    exact other ⟨event, rest, by rw [Bytes.dropPrefix?_eq_some.mp dropped]⟩
  · rfl

section
variable {a : Attribute} {value : AttrValue}

/-- A single part is the handler, unless it is a comment. -/
theorem alone_handler_single {p : Part} (valued : a.value = some value)
    (single : value.filled = [p]) (written : p.isWritten = true) (target : Bytes) :
    alone (handler a) target =
      if p.isComment then .error (.invalidAttribute a.pos a.source .compoundHandler)
      else .ok ⟨target, [p.handlerIntent]⟩ := by
  rw [AttrValue.filled] at single
  simp only [handler, valued, single]
  rw [alone_inScope (transparent_handlerPart a)]
  cases p with
  | raw value => rfl
  | code block =>
    obtain ⟨kind, source, pos⟩ := block
    cases kind <;> rfl
  | absent | misplaced => cases written

theorem alone_handler_none (unvalued : ∀ value, a.value = some value → value.filled = [])
    (target : Bytes) :
    alone (handler a) target = .error (.invalidAttribute a.pos a.source .missingHandler) := by
  unfold handler
  cases valued : a.value with
  | none => rfl
  | some value =>
    have nothing := unvalued value valued
    rw [AttrValue.filled] at nothing
    simp only [nothing]
    rfl

theorem alone_handler_several (valued : a.value = some value) (several : 1 < value.filled.length)
    (target : Bytes) :
    alone (handler a) target = .error (.invalidAttribute a.pos a.source .compoundHandler) := by
  rw [AttrValue.filled] at several
  simp only [handler, valued]
  split
  · rename_i nothing
    simp [nothing] at several
  · rename_i p single
    simp [single] at several
  · rfl

end

end Compile

namespace Attribute

/-- An attribute with a name, which is made of literal text and code as its value is. -/
structure IsWritten (a : Attribute) : Prop where
  name : ∃ first rest, a.name = some (first :: rest) ∧ ∀ p ∈ first :: rest, p.isWritten = true
  value : ∀ v, a.value = some v → ∀ p ∈ v.parts, p.isWritten = true

variable {a : Attribute} {target : Bytes}

theorem IsWritten.parts {name : List Part} (h : a.IsWritten) (named : a.name = some name) :
    name ≠ [] ∧ ∀ p ∈ name, p.isWritten = true := by
  obtain ⟨first, rest, same, written⟩ := h.name
  cases same.symm.trans named
  exact ⟨List.cons_ne_nil _ _, written⟩

theorem IsWritten.handler {value : AttrValue} {p : Part} (h : a.IsWritten)
    (valued : a.value = some value) (single : value.filled = [p]) : p.isWritten = true := by
  have mem : p ∈ value.filled := by rw [single]; exact List.mem_singleton_self p
  exact h.value value valued p (List.mem_of_mem_filter mem)

/-- An attribute with a name comes to what its name says. -/
theorem alone_attr {name : List Part} (named : a.name = some name) (nonempty : name ≠ [])
    (target : Bytes) : alone (attr (some a)) target = alone (attributeOf a name target) target := by
  obtain ⟨first, rest, rfl⟩ := List.exists_cons_of_ne_nil nonempty
  simp only [attr, named, namedAttribute_eq, alone_target]

/-- The intent of an event with the given handler. -/
def eventIntent (target event : Bytes) (rest : List Part) (handler : Container Intent) : Intent :=
  .attr target .event (some ⟨target, (.raw event :: rest).map Part.verbatim⟩) (some handler)

/-- An event without a name is refused; any other is what its handler comes to. -/
theorem NamesEvent.run {event : Bytes} {rest : List Part} (h : a.NamesEvent event rest)
    (written : a.IsWritten) (target : Bytes) :
    (¬IsCalled (.raw event :: rest) → alone (attr (some a)) target =
        .error (.invalidAttribute a.pos a.source .missingEventName)) ∧
      (IsCalled (.raw event :: rest) → alone (attr (some a)) target =
        (alone (handler a) target).map (eventIntent target event rest)) := by
  obtain ⟨nonempty, parts⟩ := written.parts h.named
  rw [List.forall_mem_cons] at parts
  have pieces : alone (inScope (.raw event :: rest) (namePart a)) target = .ok _ :=
    alone_pieces _ (List.forall_mem_cons.mpr ⟨rfl, parts.2⟩)
      (List.forall_mem_cons.mpr ⟨rfl, h.plain⟩) target
  rw [alone_attr h.named nonempty, attributeOf, attrName_of_event (eventName?_on event rest)]
  dsimp only
  rw [alone_bind (transparent_inScope (transparent_namePart a) _), pieces, isCalled_iff,
    Bool.not_eq_false]
  constructor
  · intro uncalled
    simp only [Except.bind, uncalled]
    rfl
  · intro called
    simp only [Except.bind, called, Bool.false_eq_true, if_false]
    rw [alone_bind (transparent_handler a)]
    cases alone (handler a) target <;> rfl

/-- Any other attribute is a flag, or what its value comes to. -/
theorem NamesOther.run {name : List Part} (h : a.NamesOther name) (written : a.IsWritten)
    (target : Bytes) :
    alone (attr (some a)) target =
      match a.value with
      | none => .ok (.attr target .flag (some ⟨target, name.map Part.verbatim⟩) none)
      | some v => (alone (inScope v.parts (valuePart a)) target).map fun value =>
        .attr target .value (some ⟨target, name.map Part.verbatim⟩) (some value) := by
  obtain ⟨nonempty, parts⟩ := written.parts h.named
  have pieces : alone (inScope name (namePart a)) target = .ok _ :=
    alone_pieces _ parts h.plain target
  rw [alone_attr h.named nonempty, attributeOf, attrName_of_plain (eventName?_other h.other)]
  dsimp only
  rw [alone_bind (transparent_inScope (transparent_namePart a) _), pieces]
  cases a.value with
  | none => rfl
  | some v =>
    simp only [Except.bind]
    rw [alone_bind (transparent_inScope (transparent_valuePart a) _)]
    cases alone (inScope v.parts (valuePart a)) target <;> rfl

/-- A statement in the name is refused, whatever else there is. -/
theorem alone_statement {name : List Part} {p : Part} (named : a.name = some name)
    (written : a.IsWritten) (mem : p ∈ name) (statement : p.isStatement = true) (target : Bytes) :
    alone (attr (some a)) target =
      .error (.invalidAttribute a.pos a.source .statementInName) := by
  obtain ⟨nonempty, parts⟩ := written.parts named
  have refused {event : List Part} (written : ∀ p ∈ event, p.isWritten = true) (mem : p ∈ event) :
      alone (inScope event (namePart a)) target =
        .error (.invalidAttribute a.pos a.source .statementInName) :=
    alone_pieces_statement _ written mem statement target
  rw [alone_attr named nonempty, attributeOf]
  by_cases starts : StartsWithOn name
  · obtain ⟨event, rest, rfl⟩ := starts
    -- the part that loses its `on` is literal text, so the statement is in what is left
    have later : p ∈ rest := (List.mem_cons.mp mem).resolve_left (by rintro rfl; cases statement)
    rw [List.forall_mem_cons] at parts
    rw [attrName_of_event (eventName?_on event rest)]
    dsimp only
    rw [alone_bind (transparent_inScope (transparent_namePart a) _),
      refused (List.forall_mem_cons.mpr ⟨rfl, parts.2⟩) (List.mem_cons_of_mem _ later)]
    rfl
  · rw [attrName_of_plain (eventName?_other starts)]
    dsimp only
    rw [alone_bind (transparent_inScope (transparent_namePart a) _), refused parts mem]
    rfl

theorem Sets.run {i : Intent} (h : a.Sets target i) (written : a.IsWritten) :
    alone (attr (some a)) target = .ok i := by
  cases h with
  | event named called valued single shown =>
    rw [(named.run written target).2 called,
      alone_handler_single valued single (written.handler valued single), shown]
    rfl
  | flag named bare =>
    rw [named.run written, bare]
  | @value name value named valued plain =>
    have pieces : alone (inScope value.parts (valuePart a)) target = .ok _ :=
      alone_pieces _ (written.value value valued) plain target
    rw [named.run written, valued]
    dsimp only
    rw [pieces]
    rfl

theorem Breaks.run {fault : AttributeFault} (h : a.Breaks fault) (written : a.IsWritten)
    (target : Bytes) :
    alone (attr (some a)) target = .error (.invalidAttribute a.pos a.source fault) := by
  cases h with
  | statementInName named mem statement => exact alone_statement named written mem statement target
  | missingEventName named uncalled => exact (named.run written target).1 uncalled
  | missingHandler named called unvalued =>
    rw [(named.run written target).2 called, alone_handler_none unvalued]
    rfl
  | comment named called valued single hidden =>
    rw [(named.run written target).2 called,
      alone_handler_single valued single (written.handler valued single), hidden]
    rfl
  | compound named called valued several =>
    rw [(named.run written target).2 called, alone_handler_several valued several]
    rfl
  | @statementInValue name value p named valued mem statement =>
    have refused : alone (inScope value.parts (valuePart a)) target =
        .error (.invalidAttribute a.pos a.source .statementInValue) :=
      alone_pieces_statement _ (written.value value valued) mem statement target
    rw [named.run written, valued]
    dsimp only
    rw [refused]
    rfl

theorem NamesEvent.sets_or_breaks {event : Bytes} {rest : List Part} (h : a.NamesEvent event rest)
    (target : Bytes) : (∃ i, a.Sets target i) ∨ ∃ fault, a.Breaks fault := by
  by_cases called : IsCalled (.raw event :: rest)
  · cases valued : a.value with
    | none => exact .inr ⟨_, .missingHandler h called (by simp [valued])⟩
    | some value =>
      rcases filled : value.filled with _ | ⟨p, _ | ⟨q, more⟩⟩
      · refine .inr ⟨_, .missingHandler h called fun v same => ?_⟩
        cases valued.symm.trans same
        exact filled
      · cases hidden : p.isComment with
        | true => exact .inr ⟨_, .comment h called valued filled hidden⟩
        | false => exact .inl ⟨_, .event h called valued filled hidden⟩
      · exact .inr ⟨_, .compound h called valued (by simp [filled])⟩
  · exact .inr ⟨_, .missingEventName h called⟩

theorem NamesOther.sets_or_breaks {name : List Part} (h : a.NamesOther name) (target : Bytes) :
    (∃ i, a.Sets target i) ∨ ∃ fault, a.Breaks fault := by
  cases valued : a.value with
  | none => exact .inl ⟨_, .flag h valued⟩
  | some value =>
    by_cases plain : ∀ p ∈ value.parts, p.isStatement = false
    · exact .inl ⟨_, .value h valued plain⟩
    · obtain ⟨p, mem, statement⟩ : ∃ p ∈ value.parts, p.isStatement = true := by simpa using plain
      exact .inr ⟨_, .statementInValue h valued mem statement⟩

/-- An attribute stands for an intent, or breaks a rule. -/
theorem sets_or_breaks {name : List Part} (named : a.name = some name) (target : Bytes) :
    (∃ i, a.Sets target i) ∨ ∃ fault, a.Breaks fault := by
  by_cases plain : ∀ p ∈ name, p.isStatement = false
  · by_cases starts : StartsWithOn name
    · obtain ⟨event, rest, rfl⟩ := starts
      exact NamesEvent.sets_or_breaks ⟨named, (List.forall_mem_cons.mp plain).2⟩ target
    · exact NamesOther.sets_or_breaks ⟨named, starts, plain⟩ target
  · obtain ⟨p, mem, statement⟩ : ∃ p ∈ name, p.isStatement = true := by simpa using plain
    exact .inr ⟨_, .statementInName named mem statement⟩

end Attribute

/-- An attribute compiles to the intent that it stands for, and leaves the scopes as they are; or it
is refused, with its own place, its name as written and the first rule that it breaks. -/
theorem attr_classified {a : Attribute} (written : a.IsWritten) (f : Frame) (outer : Scopes)
    (issued : List Bytes) :
    (∀ i s, attr (some a) ⟨f :: outer, issued⟩ = .ok (i, s) ↔
      a.Sets f.target i ∧ s = ⟨f :: outer, issued⟩) ∧
    ∀ e, attr (some a) ⟨f :: outer, issued⟩ = .error e ↔
      ∃ fault, a.Breaks fault ∧ e = .invalidAttribute a.pos a.source fault := by
  obtain ⟨first, rest, named, -⟩ := written.name
  rw [transparent_attr (some a) f outer issued]
  -- there is one of the two, and the run, which has one outcome, rules all others out
  rcases Attribute.sets_or_breaks named f.target with ⟨i, sets⟩ | ⟨fault, breaks⟩
  · rw [sets.run written]
    refine ⟨fun j s => ⟨?_, ?_⟩, fun e => ⟨by simp [Except.map], ?_⟩⟩
    · rintro ⟨⟩
      exact ⟨sets, rfl⟩
    · rintro ⟨other, rfl⟩
      cases (sets.run written).symm.trans (other.run written)
      rfl
    · rintro ⟨fault, breaks, -⟩
      cases (sets.run written).symm.trans (breaks.run written f.target)
  · rw [breaks.run written]
    refine ⟨fun i s => ⟨by simp [Except.map], ?_⟩, fun e => ⟨?_, ?_⟩⟩
    · rintro ⟨sets, -⟩
      cases (breaks.run written f.target).symm.trans (sets.run written)
    · rintro ⟨⟩
      exact ⟨fault, breaks, rfl⟩
    · rintro ⟨other, breaks', rfl⟩
      cases (breaks.run written f.target).symm.trans (breaks'.run written f.target)
      rfl

/-- `on{=kind}=" {go()} "`. -/
def dynamicEvent : Attribute where
  name := some [.raw (utf8 "on"), .code ⟨.expression, utf8 "kind", {}⟩]
  value := some ⟨some .double,
    [.raw (utf8 " "), .code ⟨.statement, utf8 " go() ", {}⟩, .raw (utf8 " ")]⟩
  pos := ⟨3, 1, 4⟩

/-- `on="go()"`. -/
def namelessEvent : Attribute where
  name := some [.raw (utf8 "on")]
  value := some ⟨some .double, [.raw (utf8 "go()")]⟩
  pos := ⟨3, 1, 4⟩

/-- A statement handles an event whose name is code; an event without a name is refused. -/
theorem attr_classified_events :
    dynamicEvent.IsWritten ∧ namelessEvent.IsWritten ∧
      attr (some dynamicEvent) ⟨[{ target := utf8 "a_1", tag := utf8 "a" }], []⟩ =
        .ok (.attr (utf8 "a_1") .event
          (some ⟨utf8 "a_1", [.ignore, .expression (utf8 "kind")]⟩)
          (some ⟨utf8 "a_1", [.expression (utf8 "go()")]⟩),
          ⟨[{ target := utf8 "a_1", tag := utf8 "a" }], []⟩) ∧
      attr (some namelessEvent) ⟨[{ target := utf8 "a_1", tag := utf8 "a" }], []⟩ =
        .error (.invalidAttribute ⟨3, 1, 4⟩ (utf8 "on") .missingEventName) := by
  have dynamic : dynamicEvent.IsWritten := ⟨⟨_, _, rfl, by decide⟩, by rintro v ⟨⟩; decide⟩
  have nameless : namelessEvent.IsWritten := ⟨⟨_, _, rfl, by decide⟩, by rintro v ⟨⟩; decide⟩
  have called : dynamicEvent.NamesEvent [] [.code ⟨.expression, utf8 "kind", {}⟩] :=
    ⟨by rw [List.append_nil]; rfl, by decide⟩
  have single : AttrValue.filled ⟨some .double, [.raw (utf8 " "),
      .code ⟨.statement, utf8 " go() ", {}⟩, .raw (utf8 " ")]⟩ =
        [.code ⟨.statement, utf8 " go() ", {}⟩] := by decide +kernel
  have sets : dynamicEvent.Sets (utf8 "a_1") _ :=
    .event called (.inr ⟨_, List.mem_cons_of_mem _ List.mem_cons_self, rfl⟩) rfl single rfl
  have uncalled : namelessEvent.NamesEvent [] [] := ⟨by rw [List.append_nil]; rfl, by decide⟩
  have breaks : namelessEvent.Breaks .missingEventName :=
    .missingEventName uncalled (by simp [isCalled_iff, Part.verbatim, Intent.isIgnore])
  have kind : Bytes.trim (utf8 "kind") = utf8 "kind" := by decide +kernel
  have code : Bytes.trim (utf8 " go() ") = utf8 "go()" := by decide +kernel
  have name : namelessEvent.source = utf8 "on" := by decide +kernel
  refine ⟨dynamic, nameless, ?_, ?_⟩
  · rw [((attr_classified dynamic { target := utf8 "a_1", tag := utf8 "a" } [] []).1 _ _).mpr
      ⟨sets, rfl⟩]
    simp [Part.verbatim, Part.handlerIntent, kind, code]
  · rw [((attr_classified nameless { target := utf8 "a_1", tag := utf8 "a" } [] []).2 _).mpr
      ⟨_, breaks, rfl⟩, name]
    rfl

end DomTemplate
