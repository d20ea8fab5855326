import DomTemplate.Proofs.AttributeLists
import DomTemplate.Proofs.ElementRefs
import DomTemplate.Proofs.ScriptEnd

/-! The references of elements as names of the output language. A stem keeps letters, digits and
underscores only, so a reference is an identifier unless it starts with a digit, and that takes a
tag name that starts with code, no prefix, and a digit as its first literal byte. In Ruby a
reference is an instance variable, which no configured name is. In JavaScript nothing keeps the two
apart, and a configured name that ends in a number can be declared again for an element. -/

namespace DomTemplate
open Ascii Compile

/-- A letter, a digit or an underscore. -/
def isWordByte (b : UInt8) : Bool := isAlphanumeric b || b == underscore

/-- The first byte is a digit. -/
def startsWithDigit (s : Bytes) : Bool := s.head?.any isDigit

section Bytes
variable {b : UInt8}

theorem isDigit_of_isLetter (letter : isLetter b = true) : isDigit b = false := by
  simp only [isLetter, isLower, isUpper, Bool.or_eq_true, Bool.and_eq_true, decide_eq_true_eq,
    UInt8.le_iff_toNat_le, UInt8.reduceToNat] at letter
  simp only [isDigit, Bool.and_eq_false_iff, decide_eq_false_iff_not, UInt8.le_iff_toNat_le,
    UInt8.reduceToNat]
  omega

theorem isLetter_lower (letter : isLetter b = true) : isLetter (Ascii.lower b) = true := by
  rw [Ascii.lower]
  split
  · rename_i upper
    simp only [isUpper, Bool.and_eq_true, decide_eq_true_eq, UInt8.le_iff_toNat_le,
      UInt8.reduceToNat] at upper
    simp only [isLetter, isLower, Bool.or_eq_true, Bool.and_eq_true, decide_eq_true_eq,
      UInt8.le_iff_toNat_le, UInt8.reduceToNat, UInt8.toNat_add]
    omega
  · exact letter

theorem endsName_of_isLetter (letter : isLetter b = true) : Markup.endsName b = false := by
  by_contra ends
  rw [Bool.not_eq_false] at ends
  simp only [Markup.endsName, isTagSpace, Bool.or_eq_true, beq_iff_eq] at ends
  rcases ends with (((((rfl | rfl) | rfl) | rfl) | rfl) | rfl) | rfl <;> cases letter

theorem isWordByte_of_isLetter (letter : isLetter b = true) : isWordByte b = true := by
  rw [isWordByte, isAlphanumeric, letter]
  rfl

theorem isWordByte_of_isDigit (digit : isDigit b = true) : isWordByte b = true := by
  rw [isWordByte, isAlphanumeric, digit, Bool.or_true]
  rfl

/-- What an identifier starts with: a byte of it that is no digit. -/
theorem isLetter_or_underscore (b : UInt8) :
    (isLetter b || b == underscore) = (isWordByte b && !isDigit b) := by
  cases letter : isLetter b with
  | true =>
    rw [isWordByte_of_isLetter letter, isDigit_of_isLetter letter]
    rfl
  | false =>
    by_cases same : b = underscore
    · rw [same]
      rfl
    · rw [isWordByte, isAlphanumeric, letter, beq_eq_false_iff_ne.mpr same]
      cases isDigit b <;> rfl

/-- A byte of a stem stands in a word, and is a digit if it was one. -/
theorem stemByte_spec (b : UInt8) :
    isWordByte (stemByte b) = true ∧ isDigit (stemByte b) = isDigit b := by
  rw [stemByte]
  split
  · rename_i kept
    refine ⟨?_, rfl⟩
    rw [Bool.or_eq_true, Bool.or_eq_true] at kept
    rcases kept with (lower | digit) | same
    · exact isWordByte_of_isLetter (by rw [isLetter, lower]; rfl)
    · exact isWordByte_of_isDigit digit
    · rw [isWordByte, same, Bool.or_true]
  · rename_i other
    split
    · rename_i upper
      have letter : isLetter b = true := by rw [isLetter, upper, Bool.or_true]
      have lowered := isLetter_lower letter
      refine ⟨isWordByte_of_isLetter lowered, ?_⟩
      rw [isDigit_of_isLetter lowered, isDigit_of_isLetter letter]
    · simp only [Bool.or_eq_true, not_or, Bool.not_eq_true] at other
      exact ⟨rfl, other.1.2.symm⟩

end Bytes

section Identifiers

/-- An identifier is a word that does not start with a digit. -/
theorem isIdentifier_iff {s : Bytes} :
    isIdentifier s = true ↔
      s ≠ [] ∧ (∀ b ∈ s, isWordByte b = true) ∧ startsWithDigit s = false := by
  cases s with
  | nil => simp [isIdentifier]
  | cons c s =>
    have rest : (s.all fun b => isAlphanumeric b || b == underscore) = s.all isWordByte := rfl
    rw [isIdentifier, isLetter_or_underscore, rest, List.forall_mem_cons, startsWithDigit,
      List.head?_cons, Option.any_some, Bool.and_eq_true, Bool.and_eq_true, Bool.not_eq_true',
      List.all_eq_true, and_right_comm]
    exact (and_iff_right (List.cons_ne_nil c s)).symm

/-- What follows in a word does not matter. -/
theorem isIdentifier_append {s t : Bytes} (nonempty : s ≠ [])
    (word : ∀ b ∈ t, isWordByte b = true) : isIdentifier (s ++ t) = isIdentifier s := by
  obtain ⟨c, s, rfl⟩ := List.exists_cons_of_ne_nil nonempty
  have rest : (t.all fun b => isAlphanumeric b || b == underscore) = true :=
    List.all_eq_true.mpr word
  rw [List.cons_append, isIdentifier, isIdentifier, List.all_append, rest, Bool.and_true]

theorem flatMap_stem (name : List Part) :
    name.flatMap Part.stem = (name.flatMap Part.literalText).map stemByte := by
  rw [List.map_flatMap]
  congr 1
  funext p
  cases p <;> rfl

theorem tagStem_eq (name : List Part) :
    tagStem name = if name.flatMap Part.literalText = [] then utf8 "el"
      else (name.flatMap Part.literalText).map stemByte := by
  rw [tagStem, flatMap_stem]
  simp

theorem tagStem_ne_nil (name : List Part) : tagStem name ≠ [] := by
  rw [tagStem_eq]
  split
  · decide
  · rename_i literal
    exact fun none => literal (List.map_eq_nil_iff.mp none)

theorem isWordByte_of_mem_tagStem {name : List Part} {b : UInt8} (mem : b ∈ tagStem name) :
    isWordByte b = true := by
  have generic : (utf8 "el").all isWordByte = true := by decide
  rw [tagStem_eq] at mem
  split at mem
  · exact List.all_eq_true.mp generic b mem
  · obtain ⟨c, -, rfl⟩ := List.mem_map.mp mem
    exact (stemByte_spec c).1

/-- A stem starts with a digit if the literal text of the name does. -/
theorem startsWithDigit_tagStem (name : List Part) :
    startsWithDigit (tagStem name) = startsWithDigit (name.flatMap Part.literalText) := by
  rw [tagStem_eq]
  cases name.flatMap Part.literalText with
  | nil => decide
  | cons b text => exact (stemByte_spec b).2

theorem isWordByte_of_mem_number {n : Nat} {b : UInt8}
    (mem : b ∈ [underscore] ++ Bytes.decimal n) : isWordByte b = true := by
  rcases List.mem_cons.mp mem with rfl | mem
  · rfl
  · exact isWordByte_of_isDigit (Bytes.isDigit_of_mem_decimal mem)

section
variable {elementPrefix : Bytes} (valid : elementPrefix = [] ∨ isIdentifier elementPrefix = true)
  (issued : List Bytes) (name : List Part)
include valid

theorem isWordByte_of_mem_elementName {b : UInt8}
    (mem : b ∈ elementName elementPrefix issued (tagStem name)) : isWordByte b = true := by
  rw [elementName, List.append_assoc, List.mem_append, List.mem_append] at mem
  rcases mem with (mem | mem) | mem
  · rcases valid with rfl | identifier
    · cases mem
    · exact (isIdentifier_iff.mp identifier).2.1 b mem
  · exact isWordByte_of_mem_tagStem mem
  · exact isWordByte_of_mem_number mem

/-- The name of an element is an identifier if it has a prefix or if its stem starts with no
digit. -/
theorem isIdentifier_elementName :
    isIdentifier (elementName elementPrefix issued (tagStem name)) = true ↔
      elementPrefix ≠ [] ∨ startsWithDigit (name.flatMap Part.literalText) = false := by
  rw [elementName, List.append_assoc]
  rcases valid with rfl | identifier
  · rw [List.nil_append,
      isIdentifier_append (tagStem_ne_nil name) fun b mem => isWordByte_of_mem_number mem,
      isIdentifier_iff, startsWithDigit_tagStem]
    exact ⟨fun h => .inr h.2.2, fun h =>
      ⟨tagStem_ne_nil name, fun b mem => isWordByte_of_mem_tagStem mem, h.resolve_left (· rfl)⟩⟩
  · have nonempty := (isIdentifier_iff.mp identifier).1
    have word : ∀ b ∈ tagStem name ++ ([underscore] ++
        Bytes.decimal (issued.count (tagStem name) + 1)), isWordByte b = true :=
      List.forall_mem_append.mpr ⟨fun b mem => isWordByte_of_mem_tagStem mem,
        fun b mem => isWordByte_of_mem_number mem⟩
    rw [List.append_assoc, isIdentifier_append nonempty word]
    exact iff_of_true identifier (.inl nonempty)

end

end Identifiers

section Reading

/-- The parts of a text start with code or with the first byte of the text. -/
theorem expand_starts (blocks : List (Nat × Block)) (src : Bytes) (c : UInt8) (s : Bytes) :
    Answers (fun _ => True)
      (fun parts => (∃ block rest, parts = .code block :: rest) ∨
        ∃ value rest, parts = .raw (c :: value) :: rest)
      (expand src blocks (c :: s)) := by
  rw [expand_eq, if_neg (by simp)]
  have inside := @firstMark_block blocks (c :: s)
  generalize firstMark blocks (c :: s) = first at inside
  cases first with
  | none => exact .inr ⟨s, [], rfl⟩
  | malformed | negative => trivial
  | block head offset b rest =>
    -- what stands before a mark is a start of the text, and no part if it is empty
    refine (Answers.any _).map fun parts _ => ?_
    cases head with
    | nil => exact .inl ⟨_, _, rfl⟩
    | cons c' head =>
      obtain ⟨rfl, -⟩ := List.cons_prefix_cons.mp (inside rfl).2.1
      exact .inr ⟨_, _, rfl⟩

/-- Starts with code or with a letter. -/
def StartsName (name : List Part) : Prop :=
  (∃ block rest, name = .code block :: rest) ∨
    ∃ b value rest, name = .raw (b :: value) :: rest ∧ isLetter b = true

theorem StartsName.code_of_digit {name : List Part} (h : StartsName name)
    (digit : startsWithDigit (name.flatMap Part.literalText) = true) :
    ∃ block rest, name = .code block :: rest := by
  rcases h with code | ⟨b, value, rest, rfl, letter⟩
  · exact code
  · rw [List.flatMap_cons, Part.literalText, List.cons_append, startsWithDigit, List.head?_cons,
      Option.any_some, isDigit_of_isLetter letter] at digit
    cases digit

namespace MaskedSource

theorem tag_starts (m : MaskedSource) (a : UInt8) {b : UInt8} (rest : Bytes) (start : Nat)
    (solidus : Bool) (letter : isLetter b = true) :
    Answers (fun _ => True) (fun t => StartsName (t.name.getD []))
      (m.tag (a :: b :: rest) start 1 false solidus) := by
  have body : Bytes.lower (((a :: b :: rest).drop 1).takeWhile (!Markup.endsName ·)) =
      Ascii.lower b :: Bytes.lower (rest.takeWhile (!Markup.endsName ·)) := by
    rw [List.drop_one, List.tail_cons, List.takeWhile_cons, endsName_of_isLetter letter]
    rfl
  rw [tag, body]
  refine (expand_starts m.masked.blocks m.src _ _).bind fun parts starts => ?_
  refine (Answers.any _).bind fun attrs _ => ?_
  rcases starts with code | ⟨value, rest, same⟩
  · exact .inl code
  · exact .inr ⟨_, value, rest, same, isLetter_lower letter⟩

theorem tag_closing (m : MaskedSource) (raw : Bytes) (start : Nat) :
    Answers (fun _ => True) (fun t => t.closing = true) (m.tag raw start 2 true false) :=
  (Answers.any _).bind fun _ _ => rfl

theorem node?_starts (m : MaskedSource) (start : Nat) {t : Markup.Token} {text : Bytes}
    (mem : t ∈ Markup.tokens text) :
    Answers (fun _ => True)
      (fun n => ∀ node name, n = some node → node.opened? = some name → StartsName name)
      (m.node? start t) := by
  cases t with
  | startTag raw parts =>
    obtain ⟨inside, s, token⟩ := Markup.exists_firstToken mem
    have reads := (Markup.firstToken_reads inside s).2
    rw [token] at reads
    obtain ⟨-, a, b, rest, rfl, letter⟩ := reads
    refine (m.tag_starts a rest start parts.solidus letter).bind fun t starts => ?_
    rintro _ name ⟨⟩ opened
    rw [Node.opened?] at opened
    split at opened
    · cases opened
    · cases opened
      exact starts
  | endTag raw =>
    refine (m.tag_closing raw start).bind fun t closing => ?_
    rintro _ name ⟨⟩ opened
    rw [Node.opened?, closing] at opened
    cases opened
  | text raw shown =>
    refine (Answers.any _).bind fun parts _ node name same opened => ?_
    split at same
    · cases same
    · cases same
      cases opened
  | comment raw text =>
    refine (Answers.any _).bind fun text _ node name same opened => ?_
    cases same
    cases opened
  | doctype raw text =>
    intro node name same opened
    cases same
    cases opened
  | unfinished raw => trivial

theorem nodes_start (m : MaskedSource) {text : Bytes} (start : Nat) {ts : List Markup.Token}
    (inside : ∀ t ∈ ts, t ∈ Markup.tokens text) :
    Answers (fun _ => True) (fun ns => ∀ name ∈ ns.filterMap Node.opened?, StartsName name)
      (m.nodes start ts) := by
  induction ts generalizing start with
  | nil => exact fun name mem => absurd mem List.not_mem_nil
  | cons first ts ih =>
    rw [List.forall_mem_cons] at inside
    refine (m.node?_starts start inside.1).bind fun node starts => ?_
    refine (ih _ inside.2).bind fun ns later name mem => ?_
    rw [List.filterMap_append, List.mem_append] at mem
    rcases mem with here | mem
    · obtain ⟨n, same, opened⟩ := List.mem_filterMap.mp here
      exact starts n name (Option.mem_toList.mp same) opened
    · exact later name mem

end MaskedSource

/-- The names of the opening tags of a document that was read start with code or a letter. -/
theorem Document.startsName_of_parse {d : Delimiters} {src : Bytes} {doc : Document}
    (h : Document.parse d src = .ok doc) {name : List Part}
    (mem : name ∈ doc.children.filterMap Node.opened?) : StartsName name := by
  obtain ⟨-, m, -, nodes⟩ := Document.parse_ok h
  have starts := MaskedSource.nodes_start ⟨src, m⟩ 0
    (fun t (here : t ∈ Markup.tokens m.text) => here)
  rw [nodes] at starts
  exact starts name mem

end Reading

section References
variable {options : CompileOptions}

theorem Document.created_eq_refsOf {doc : Document} {content : Container Intent}
    (compiled : doc.compile options = .ok content) :
    (Intent.container content).created =
      refsOf options [] (doc.children.filterMap Node.opened?) := by
  obtain ⟨target, nodes⟩ := content
  obtain ⟨s, run, intents⟩ := compile_intents compiled
  have created := (each_created run ⟨_, _, rfl⟩).1
  rw [← intents] at created
  exact created

theorem forall₂_refsOf {related : List Part → Bytes → Prop} (issued : List Bytes)
    {names : List (List Part)}
    (each : ∀ issued, ∀ name ∈ names, related name (nextRef options issued name)) :
    List.Forall₂ related names (refsOf options issued names) := by
  induction names generalizing issued with
  | nil => exact .nil
  | cons name names ih =>
    refine .cons (each issued name List.mem_cons_self) (ih _ fun issued' name' mem => ?_)
    exact each issued' name' (List.mem_cons_of_mem _ mem)

/-- The references given out are those of the stems with the numbers that come next, up to the
number of names with the stem. -/
theorem mem_refsOf_iff {issued : List Bytes} {names : List (List Part)} {ref : Bytes} :
    ref ∈ refsOf options issued names ↔ ∃ stem number, issued.count stem < number ∧
      number ≤ issued.count stem + (names.map tagStem).count stem ∧
      ref = options.ref
        (options.elementPrefix ++ stem ++ [underscore] ++ Bytes.decimal number) := by
  induction names generalizing issued with
  | nil =>
    refine ⟨fun mem => absurd mem List.not_mem_nil, ?_⟩
    rintro ⟨stem, number, above, below, -⟩
    rw [List.map_nil, List.count_nil] at below
    omega
  | cons first names ih =>
    rw [refsOf, List.mem_cons, ih, List.map_cons]
    constructor
    · rintro (rfl | ⟨stem, number, above, below, rfl⟩)
      · exact ⟨tagStem first, _, Nat.lt_succ_self _, by rw [List.count_cons_self]; omega, rfl⟩
      · rw [List.count_cons] at above below
        exact ⟨stem, number, by omega, by rw [List.count_cons]; omega, rfl⟩
    · rintro ⟨stem, number, above, below, rfl⟩
      rw [List.count_cons] at below
      -- the first name takes the lowest number of its stem and leaves the others to the rest
      by_cases next : stem = tagStem first ∧ number = issued.count stem + 1
      · obtain ⟨rfl, rfl⟩ := next
        exact .inl rfl
      · refine .inr ⟨stem, number, ?_, by rw [List.count_cons]; omega, rfl⟩
        rw [List.count_cons]
        by_cases same : stem = tagStem first
        · have later : number ≠ issued.count stem + 1 := fun lowest => next ⟨same, lowest⟩
          rw [if_pos (beq_iff_eq.mpr same.symm)]
          omega
        · rw [if_neg fun h => same (beq_iff_eq.mp h).symm]
          omega

/-- A child creates the element of its reference if it is an opening tag, and no other. -/
theorem exists_create_childOps_iff {top ref x : Bytes} {n : Node} :
    (∃ tag, .create x tag ∈ childOps top ref n) ↔ x = ref ∧ n.opened? ≠ none := by
  constructor
  · rintro ⟨tag, mem⟩
    exact (mem_childOps mem).1 rfl
  · rintro ⟨rfl, opens⟩
    cases n with
    | tag t =>
      have opening : ¬t.closing = true := by simpa [Node.opened?] using opens
      rw [childOps, if_neg opening]
      exact ⟨_, List.mem_cons_self⟩
    | _ => exact absurd rfl opens

theorem exists_create_translate_iff {root x : Bytes} {stack issued : List Bytes} {ns : List Node} :
    (∃ tag, .create x tag ∈ translate root stack (labelled options issued ns)) ↔
      x ∈ refsOf options issued (ns.filterMap Node.opened?) := by
  induction ns generalizing stack issued with
  | nil => simp [labelled, translate, refsOf]
  | cons n ns ih =>
    rw [labelled, List.filterMap_cons]
    cases opened : n.opened? with
    | none =>
      simp only [translate, List.mem_append, exists_or, ih, exists_create_childOps_iff, opened]
      simp
    | some name =>
      simp only [translate, List.mem_append, exists_or, ih, exists_create_childOps_iff, opened,
        refsOf, List.mem_cons]
      simp

end References

/-- An instance variable is no identifier. -/
theorem Target.eq_javascript {t : Target} {name : Bytes} (h : isIdentifier (t.ref name) = true) :
    t = .javascript := by
  cases t with
  | ruby =>
    have other : isIdentifier (Target.ruby.ref name) = false := rfl
    rw [other] at h
    cases h
  | javascript => rfl

section Settings

/-- The names in a configuration are identifiers, and there may be no prefix. -/
structure Config.Identifiers (c : Config) : Prop where
  rootRef : isIdentifier c.rootRef = true
  document : isIdentifier c.document = true
  elementPrefix : c.elementPrefix = [] ∨ isIdentifier c.elementPrefix = true

theorem isIdentifier_of_optional {field given : Bytes} (h : Problem.ofOptional field given = []) :
    given = [] ∨ isIdentifier given = true := by
  unfold Problem.ofOptional at h
  split at h
  · rename_i fine
    exact (Bool.or_eq_true_iff.mp fine).imp_left List.isEmpty_iff.mp
  · cases h

theorem isIdentifier_of_required {field given : Bytes} (h : Problem.ofRequired field given = []) :
    isIdentifier given = true := by
  unfold Problem.ofRequired at h
  split at h
  · cases h
  · rename_i nonempty
    exact (isIdentifier_of_optional h).resolve_left (mt List.isEmpty_iff.mpr nonempty)

theorem Config.identifiers_of_problems {c : Config} (h : c.problems = []) : c.Identifiers := by
  simp only [Config.problems, List.append_eq_nil_iff] at h
  obtain ⟨⟨⟨⟨⟨⟨⟨⟨⟨-, -⟩, -⟩, rootRef⟩, document⟩, elementPrefix⟩, -⟩, -⟩, -⟩, -⟩ := h
  exact ⟨isIdentifier_of_required rootRef, isIdentifier_of_required document,
    isIdentifier_of_optional elementPrefix⟩

end Settings

namespace Pipeline
variable {c : Config} {p : Pipeline} {src : Bytes} {content : Container Intent}

/-- The elements that a template creates have names made of letters, digits and underscores, one
for each opening tag in document order. A name is an identifier, unless there is no prefix and the
literal text of the tag name starts with a digit, which takes code in front of it. -/
theorem created_identifiers (valid : ofConfig c = .ok p) (built : p.intents src = .ok content) :
    ∃ doc, Document.parse p.delimiters src = .ok doc ∧
      List.Forall₂ (fun name ref => ∃ ident, ref = p.target.ref ident ∧
          (∀ b ∈ ident, isWordByte b = true) ∧
          (isIdentifier ident = true ↔
            c.elementPrefix ≠ [] ∨ startsWithDigit (name.flatMap Part.literalText) = false) ∧
          (startsWithDigit (name.flatMap Part.literalText) = true →
            ∃ block rest, name = .code block :: rest))
        (doc.children.filterMap Node.opened?) (Intent.container content).created := by
  obtain ⟨rfl, problems⟩ := config_eq valid
  obtain ⟨doc, parsed, compiled⟩ := parse_of_intents built
  have fine := (Config.identifiers_of_problems problems).elementPrefix
  refine ⟨doc, parsed, ?_⟩
  rw [Document.created_eq_refsOf compiled]
  refine forall₂_refsOf [] fun issued name mem => ?_
  refine ⟨elementName p.config.elementPrefix issued (tagStem name), rfl,
    fun b mem => isWordByte_of_mem_elementName fine issued name mem,
    isIdentifier_elementName fine issued name, ?_⟩
  exact (Document.startsName_of_parse parsed mem).code_of_digit

def numberedConfig : Config :=
  { target := utf8 "js", template := utf8 "raw", elementPrefix := utf8 "my_" }

/-- With a prefix also a stem that starts with a digit gives an identifier. -/
theorem created_identifiers_prefixed :
    let p : Pipeline := ⟨numberedConfig, .brace, .javascript, .node, .bare⟩
    ofConfig numberedConfig = .ok p ∧
      ∃ content, p.intents (utf8 "<\x7b=t\x7d1></\x7b=t\x7d1>") = .ok content ∧
        (Intent.container content).created = [utf8 "my_1_1"] ∧
        isIdentifier (utf8 "my_1_1") = true := by
  intro p
  have refs : (p.intents (utf8 "<\x7b=t\x7d1></\x7b=t\x7d1>")).map
      (fun content => (Intent.container content).created) = .ok [utf8 "my_1_1"] := by
    decide +kernel
  obtain ⟨content, built, created⟩ := exists_of_map_ok refs
  obtain ⟨doc, -, named⟩ := created_identifiers (c := numberedConfig) (p := p) rfl built
  rw [created] at named
  obtain ⟨name, _, ⟨ident, same, -, identifier, -⟩, -, -⟩ := List.forall₂_cons_right_iff.mp named
  refine ⟨rfl, content, built, created, ?_⟩
  rw [same]
  exact identifier.mpr (.inl (by decide))

/-- Without a prefix the element is declared by a number. -/
theorem numeral_declared :
    let c : Config := { target := utf8 "js", template := utf8 "raw" }
    let p : Pipeline := ⟨c, .brace, .javascript, .node, .bare⟩
    let src := utf8 "<\x7b=t\x7d1></\x7b=t\x7d1>"
    ofConfig c = .ok p ∧
      (p.intents src).map (fun content => (Intent.container content).created) =
        .ok [utf8 "1_1"] ∧
      isIdentifier (utf8 "1_1") = false ∧
      p.body src = .ok (utf8
        "const 1_1 = document.createElement(`$\x7bt\x7d1`);\nroot.appendChild(1_1);") := by
  refine ⟨rfl, ?_, ?_, ?_⟩
  · decide +kernel
  · decide
  · repeat rw [utf8_ofList]
    decide +kernel

theorem body_of_intents {doc : Document} (compiled : doc.compile p.compileOptions = .ok content)
    (built : p.intents src = .ok content) :
    p.body src = .ok (p.exporter.lines
      (translate p.exporter.root [] (labelled p.compileOptions [] doc.children))).trim := by
  have lines : p.exporter.render (.container content) = _ :=
    doc.render_lines p.target p.config.document p.text compiled
  rw [body, built]
  show p.codeOf content = _
  rw [codeOf, lines]
  rfl

/-- The code of a template creates the elements of its references and no others. The root and the
document, which keep the names that they are given, are among them exactly if the language is
JavaScript and the name is that of a stem with a number up to the number of tags of the stem. -/
theorem shadowed_iff (valid : ofConfig c = .ok p) (built : p.intents src = .ok content) :
    ∃ doc ops, Document.parse p.delimiters src = .ok doc ∧
      p.body src = .ok (p.exporter.lines ops).trim ∧
      p.exporter.root = c.rootRef ∧ p.exporter.document = c.document ∧
      (∀ x, (∃ tag, .create x tag ∈ ops) ↔ x ∈ (Intent.container content).created) ∧
      ∀ x, x = c.rootRef ∨ x = c.document →
        (x ∈ (Intent.container content).created ↔ p.target = .javascript ∧ ∃ stem number,
          0 < number ∧
          number ≤ ((doc.children.filterMap Node.opened?).map tagStem).count stem ∧
          x = c.elementPrefix ++ stem ++ [underscore] ++ Bytes.decimal number) := by
  obtain ⟨rfl, problems⟩ := config_eq valid
  have names := Config.identifiers_of_problems problems
  obtain ⟨doc, parsed, compiled⟩ := parse_of_intents built
  have given {s default : Bytes} (identifier : isIdentifier s = true) :
      (if s.isEmpty then default else s) = s :=
    if_neg fun none => (isIdentifier_iff.mp identifier).1 (List.isEmpty_iff.mp none)
  have created := Document.created_eq_refsOf compiled
  refine ⟨doc, _, parsed, body_of_intents compiled built, given names.rootRef,
    given names.document, fun x => ?_, fun x configured => ?_⟩
  · rw [created]
    exact exists_create_translate_iff
  · -- a configured name is an identifier, which a reference is in one of the languages only
    have identifier : isIdentifier x = true := by
      rcases configured with rfl | rfl
      · exact names.rootRef
      · exact names.document
    have plain (js : p.target = .javascript) (name : Bytes) : p.compileOptions.ref name = name := by
      rw [compileOptions, js]
      rfl
    rw [created, mem_refsOf_iff]
    simp only [List.count_nil, Nat.zero_add]
    constructor
    · rintro ⟨stem, number, above, below, rfl⟩
      have js := Target.eq_javascript identifier
      exact ⟨js, stem, number, above, below, plain js _⟩
    · rintro ⟨js, stem, number, above, below, rfl⟩
      exact ⟨stem, number, above, below, (plain js _).symm⟩

def listedRoot (target : Bytes) : Config :=
  { target, template := utf8 "raw", rootRef := utf8 "li_2" }

/-- The second item of a list takes the name of the root in JavaScript and another one in Ruby. -/
theorem shadowed_iff_listed :
    let src := utf8 "<li></li><li></li>"
    let js : Pipeline := ⟨listedRoot (utf8 "js"), .brace, .javascript, .node, .bare⟩
    let ruby : Pipeline := ⟨listedRoot (utf8 "ruby"), .brace, .ruby, .node, .bare⟩
    ofConfig js.config = .ok js ∧ ofConfig ruby.config = .ok ruby ∧
      (∃ ops, js.body src = .ok (js.exporter.lines ops).trim ∧
        ∃ tag, .create (utf8 "li_2") tag ∈ ops) ∧
      ∃ ops, ruby.body src = .ok (ruby.exporter.lines ops).trim ∧
        ∀ tag, .create (utf8 "li_2") tag ∉ ops := by
  intro src js ruby
  have accepted (p : Pipeline) (h : (p.intents src).toOption.isSome = true) :
      ∃ content, p.intents src = .ok content := by
    cases built : p.intents src with
    | ok content => exact ⟨content, rfl⟩
    | error e => rw [built] at h; cases h
  obtain ⟨inJs, builtJs⟩ := accepted js (by decide +kernel)
  obtain ⟨inRuby, builtRuby⟩ := accepted ruby (by decide +kernel)
  refine ⟨rfl, rfl, ?_, ?_⟩
  · obtain ⟨doc, ops, parsed, exported, -, -, creates, clash⟩ :=
      shadowed_iff (c := js.config) (p := js) rfl builtJs
    refine ⟨ops, exported, (creates _).mpr ((clash _ (.inl rfl)).mpr ⟨rfl, ?_⟩)⟩
    have stems : (Document.parse js.delimiters src).map (fun doc =>
        ((doc.children.filterMap Node.opened?).map tagStem).count (utf8 "li")) = .ok 2 := by
      decide +kernel
    rw [parsed] at stems
    exact ⟨utf8 "li", 2, by decide, (Except.ok.inj stems).ge, by decide +kernel⟩
  · obtain ⟨doc, ops, -, exported, -, -, creates, clash⟩ :=
      shadowed_iff (c := ruby.config) (p := ruby) rfl builtRuby
    refine ⟨ops, exported, fun tag mem => ?_⟩
    cases ((clash _ (.inl rfl)).mp ((creates _).mp ⟨tag, mem⟩)).1

/-- An element that takes the name of the root is appended to itself. -/
theorem root_declared_again :
    let c : Config := { target := utf8 "js", template := utf8 "raw", rootRef := utf8 "div_1" }
    let p : Pipeline := ⟨c, .brace, .javascript, .node, .bare⟩
    ofConfig c = .ok p ∧
      (p.intents (utf8 "<div></div>")).map (fun content => (Intent.container content).created) =
        .ok [c.rootRef] ∧
      p.body (utf8 "<div></div>") = .ok (utf8
        "const div_1 = document.createElement('div');\ndiv_1.appendChild(div_1);") := by
  refine ⟨rfl, ?_, ?_⟩
  · decide +kernel
  · repeat rw [utf8_ofList]
    decide +kernel

end Pipeline

end DomTemplate
