import DomTemplate.Proofs.Rewriting
import DomTemplate.Proofs.TokenEnds

/-! Where a bare brace is literal text. The scan between braces keeps its own account of script
and style elements, by what follows each `<`. It can be taken on the masked text just as well,
where it is compared with the tokens. They agree as long as the tokens are orderly: no `<` of a
comment, a value or any other text looks like the tag of a script or style element, such a tag
holds no other angle brackets, and the content of such an element holds nothing that looks like
its end. -/

namespace DomTemplate
open Ascii Bytes

namespace BraceContext
variable {context : BraceContext}

/-- The context after `u`, which is followed by `rest`. -/
def after (context : BraceContext) : (u rest : Bytes) → BraceContext
  | [], _ => context
  | c :: u, rest => (context.next c (u ++ rest)).after u rest

theorem after_append (context : BraceContext) (u v rest : Bytes) :
    context.after (u ++ v) rest = (context.after u (v ++ rest)).after v rest := by
  induction u generalizing context with
  | nil => rfl
  | cons c u ih =>
    rw [List.cons_append, after, ih, after, List.append_assoc]

theorem next_calm {c : UInt8} (calm : c ≠ lt ∧ c ≠ gt) (rest : Bytes) :
    context.next c rest = context := by
  cases context <;> simp [next, calm.1, calm.2]

/-- A context that no byte changes is kept. -/
theorem after_fixed {u rest : Bytes}
    (fixed : ∀ a c v, u = a ++ c :: v → context.next c (v ++ rest) = context) :
    context.after u rest = context := by
  induction u with
  | nil => rfl
  | cons c u ih =>
    rw [after, fixed [] c u rfl]
    refine ih fun a d v split => fixed (c :: a) d v ?_
    rw [split, List.cons_append]

/-- Only angle brackets change the context. -/
theorem after_calm {u : Bytes} (calm : ∀ c ∈ u, c ≠ lt ∧ c ≠ gt) (rest : Bytes) :
    context.after u rest = context :=
  after_fixed fun a c v split => next_calm (calm c (by simp [split])) (v ++ rest)

/-- The element of the context is a script or a style. -/
def Known (context : BraceContext) : Prop :=
  ∀ e, context = .opening e ∨ context = .inside e → e ∈ [Markup.RawElement.script, .style]

theorem Known.next (known : context.Known) (c : UInt8) (rest : Bytes) :
    (context.next c rest).Known := by
  have opened : ((opened? rest).elim markup opening).Known := by
    cases found : opened? rest with
    | none => simp [Known]
    | some e => simpa [Known] using List.mem_of_find?_eq_some found
  cases context with
  | markup =>
    rw [BraceContext.next]
    split
    · exact opened
    · exact known
  | opening e =>
    rw [BraceContext.next]
    split
    · exact opened
    split
    · simpa [Known] using known
    · exact known
  | inside e =>
    rw [BraceContext.next]
    split
    · simp [Known]
    · exact known

end BraceContext

/-- A byte that starts a block or an escape neither as written nor as shown. -/
def isSteady (b : UInt8) : Bool := !([lbrace, backslash, lowerX, 0x58, 0xEE].contains b)

/-- A mark holds no angle bracket. -/
theorem shown_calm (b : Block) : ∀ c ∈ b.shown, c ≠ lt ∧ c ≠ gt := by
  have mark : ∀ c, isMarkByte c = true → c ≠ lt ∧ c ≠ gt := forall_byte (by decide +kernel)
  rw [Block.shown, List.forall_mem_append]
  refine ⟨?_, fun c mem => mark c (isMarkByte_mark b.number c mem)⟩
  split
  · exact List.forall_mem_singleton.mpr (by decide)
  · simp

namespace Cut
variable {state : MaskState} {context : BraceContext} {s : Bytes} {m : Masked}

/-- Source and masked text are the same up to the first block or escape. -/
theorem steady_text (h : Cut .brace state context s m) :
    m.text.takeWhile isSteady = s.takeWhile isSteady := by
  induction h with
  | nil => rfl
  | escape after ih => rfl
  | @block state context inner written rest m encloses nonempty allowed after ih =>
    obtain ⟨rfl, -⟩ := encloses
    rw [Masked.text, List.flatMap_cons, Piece.shown, Block.shown]
    split <;> rfl
  | @byte state context c rest m plain after ih =>
    rw [Masked.text, List.flatMap_cons, Piece.shown, List.singleton_append, List.takeWhile_cons,
      List.takeWhile_cons, ← Masked.text, ih]

theorem next_text (h : Cut .brace state context s m) {at_c : BraceContext} (known : at_c.Known)
    (c : UInt8) : at_c.next c m.text = at_c.next c s := by
  refine BraceContext.next_congr (q := isSteady) (forall_byte (by decide +kernel))
    (forall_byte (by decide +kernel)) (by decide +kernel) h.steady_text (fun e inside => ?_) c
  have closers : ∀ e ∈ [Markup.RawElement.script, .style],
      (Bytes.lower (slash :: e.name)).all isSteady = true := by decide +kernel
  exact closers e (known e (.inr inside))

/-- The context in which a piece is cut is that of the masked text before it. -/
theorem context_at (h : Cut .brace state context s m) (known : context.Known) {front back : Masked}
    (split : m = front ++ back) :
    ∃ state', Cut .brace state' (context.after front.text back.text) back.source back := by
  induction front generalizing state context s m with
  | nil =>
    subst split
    exact ⟨state, h.source_eq.symm ▸ h⟩
  | cons p front ih =>
    subst split
    have calm (plain : ∀ c ∈ p.shown, c ≠ lt ∧ c ≠ gt) :
        context.after (Masked.text (p :: front)) back.text =
          context.after (Masked.text front) back.text := by
      rw [Masked.text, List.flatMap_cons, BraceContext.after_append, BraceContext.after_calm plain]
      rfl
    cases h with
    | escape after =>
      obtain ⟨state', cut⟩ := ih after known rfl
      rw [calm (List.forall_mem_singleton.mpr (by decide))]
      exact ⟨state', cut⟩
    | block encloses nonempty allowed after =>
      obtain ⟨state', cut⟩ := ih after known rfl
      rw [calm (shown_calm _)]
      exact ⟨state', cut⟩
    | @byte _ _ c rest m plain after =>
      obtain ⟨state', cut⟩ := ih after (known.next c rest) rfl
      have looked : context.next c (Masked.text (front ++ back)) = context.next c rest :=
        after.next_text known c
      have step : context.after (Masked.text (.byte c :: front)) back.text =
          (context.next c rest).after (Masked.text front) back.text := by
        rw [← looked, Masked.text_append]
        rfl
      rw [step]
      exact ⟨state', cut⟩

/-- A bare brace is literal text inside scripts and styles, and opens a block elsewhere. -/
theorem bare_brace {p : Piece} {back : Masked} {rest : Bytes}
    (h : Cut .brace state context s (p :: back)) (brace : s = lbrace :: rest)
    (bare : rest.head? ≠ some equals) :
    (p = .byte lbrace ↔ context.isInside = true) ∧
      (p ≠ .byte lbrace → ∃ b, p = .block b ∧ b.kind = .statement) := by
  cases h with
  | escape after => cases brace
  | @block _ _ inner written later m encloses nonempty allowed after =>
    obtain ⟨rfl, -⟩ := encloses
    have statement : (braceCode inner).1 = .statement := by
      cases inner with
      | nil => rfl
      | cons c inner =>
        cases brace
        rw [braceCode, if_neg fun same => bare (by rw [same]; rfl)]
    have outside : context.isInside = false := by
      rw [Bool.eq_false_iff]
      intro inside
      have expression := allowed rfl inside
      rw [Delimiters.codeOf, statement] at expression
      cases expression
    exact ⟨by simp [outside], fun _ => ⟨_, rfl, statement⟩⟩
  | @byte _ _ c later m plain after =>
    cases brace
    have inside : context.isInside = true := by
      rw [← Bool.not_eq_false]
      exact fun outside => plain (.inr ⟨rfl, .inl outside⟩)
    simp [inside]

end Cut

namespace Markup

/-- A script or a style, whose content the scan between braces tells apart. -/
def RawElement.isCode (e : RawElement) : Bool := e == script || e == style

/-- The first name of a text alone decides whether the tag of a script or style starts. -/
theorem opened?_name {name : Bytes} {b : UInt8} (whole : ∀ c ∈ name, endsName c = false)
    (ends : endsName b = true) (s : Bytes) :
    BraceContext.opened? (name ++ b :: s) = (RawElement.ofName? name).filter RawElement.isCode := by
  have starts (e : RawElement) :
      startsName e.name (name ++ b :: s) = (e.name == Bytes.lower name) := by
    rw [Bool.eq_iff_iff, e.startsName_whole whole ends, beq_iff_eq, eq_comm]
  rw [BraceContext.opened?, RawElement.ofName?]
  simp only [starts]
  cases found : RawElement.all.find? fun e => e.name == Bytes.lower name with
  | none =>
    rw [List.find?_eq_none] at found
    exact List.find?_eq_none.mpr fun e _ => found e e.name_spec.1
  | some e =>
    have named := List.find?_some found
    rw [beq_iff_eq] at named
    rw [← named]
    cases e <;> decide +kernel

theorem opened?_ended {v : Bytes} (ended : v.dropWhile (!endsName ·) ≠ []) (rest : Bytes) :
    BraceContext.opened? (v ++ rest) =
      (RawElement.ofName? (v.takeWhile (!endsName ·))).filter RawElement.isCode := by
  obtain ⟨b, s, found⟩ := List.exists_cons_of_ne_nil ended
  have head : (v.dropWhile (!endsName ·)).head? = some b := by rw [found]; rfl
  have name : ∀ c ∈ v.takeWhile (!endsName ·), endsName c = false := fun c mem => by
    simpa using List.mem_takeWhile_imp mem
  have whole : v ++ rest = v.takeWhile (!endsName ·) ++ b :: (s ++ rest) := by
    rw [← List.cons_append, ← found, ← List.append_assoc, List.takeWhile_append_dropWhile]
  rw [whole]
  exact opened?_name name (by simpa using dropWhile_stops head) _

theorem lowered_angle : ∀ b, (Ascii.lower b != lt) = (b != lt) := forall_byte (by decide +kernel)

/-- What starts with a `<` does not count where names are looked for. -/
theorem takeWhile_append_angle {rest : Bytes} (head : ∀ b, rest.head? = some b → b = lt)
    (v : Bytes) : (v ++ rest).takeWhile (· != lt) = v.takeWhile (· != lt) := by
  cases rest with
  | nil => rw [List.append_nil]
  | cons b rest =>
    rw [List.takeWhile_append, List.takeWhile_cons_of_neg (by simp [head b rfl]), List.append_nil]
    split
    · rename_i all
      rw [(List.takeWhile_prefix _).eq_of_length all]
    · rfl

/-- What follows a token does not change whether a `<` in it looks like a tag. -/
theorem Parted.opened? {raw rest a v : Bytes} (parted : Parted raw rest)
    (split : raw = a ++ lt :: v) :
    BraceContext.opened? (v ++ rest) = BraceContext.opened? v := by
  rcases parted with rfl | before | after
  · rw [List.append_nil]
  · -- no name goes on past a `<`
    have front := takeWhile_append_angle (fun b head => Option.some.inj (head.symm.trans before)) v
    exact BraceContext.opened?_congr lowered_angle (forall_byte (by decide +kernel))
      (by decide +kernel) front
  · -- the token ends with a `>`, which ends the name as well
    have mem : gt ∈ v := by
      rw [split, List.getLast?_append_cons] at after
      exact (List.mem_cons.mp (List.mem_of_getLast? after)).resolve_left (by decide)
    have ended : v.dropWhile (!endsName ·) ≠ [] := by
      rw [Ne, List.dropWhile_eq_nil_iff]
      exact fun all => absurd (all gt mem) (by decide)
    rw [opened?_ended ended, ← opened?_ended ended [], List.append_nil]

/-- A tag opens a script or style if its name is that of one. -/
theorem opened?_tag {s rest : Bytes} {parts : TagParts} (h : tagSpan? s = some (parts, rest)) :
    BraceContext.opened? s = (RawElement.ofName? parts.name).filter RawElement.isCode := by
  obtain ⟨⟨tail, after⟩, found, same⟩ := Option.map_eq_some_iff.mp h
  cases same
  have ended : s.dropWhile (!endsName ·) ≠ [] := by
    intro none
    rw [none] at found
    simp [tagEndSpan?, skipSpace] at found
  rw [← opened?_ended ended [], List.append_nil]

/-- A script or style whose content the token is, where `inside` is the raw element just opened. -/
def Token.content? (inside : Option RawElement) : Token → Option RawElement
  | .text .. => inside.filter RawElement.isCode
  | _ => none

/-- The script or style whose start tag the token is. -/
def Token.code? (t : Token) : Option RawElement := t.opens.filter RawElement.isCode

/-- The script or style in whose content the byte at `n` stands. -/
def contentAt (inside : Option RawElement) : List Token → Nat → Option RawElement
  | [], _ => none
  | t :: ts, n =>
    if n < t.raw.length then t.content? inside else contentAt t.opens ts (n - t.raw.length)

/-- No `<` of the text looks like the tag of a script or style. -/
def Unopened (raw : Bytes) : Prop :=
  ∀ v ∈ raw.tails, v.head? = some lt → BraceContext.opened? v.tail = none

instance (raw : Bytes) : Decidable (Unopened raw) :=
  inferInstanceAs (Decidable (∀ v ∈ raw.tails, _ → _))

/-- The scan between braces reads the token for what it is. -/
@[mk_iff]
structure Token.Orderly (inside : Option RawElement) (t : Token) : Prop where
  content : ∀ e ∈ t.content? inside, Avoids (Bytes.lower t.raw) (lt :: slash :: e.name)
  tag : t.code? ≠ none → lt ∉ t.raw.tail.dropLast ∧ gt ∉ t.raw.tail.dropLast
  other : t.content? inside = none → t.code? = none → Unopened t.raw

instance (inside : Option RawElement) (t : Token) : Decidable (t.Orderly inside) :=
  decidable_of_iff' _ (Token.orderly_iff inside t)

/-- The tokens that start no later than at `n` are orderly. -/
def OrderlyUntil (inside : Option RawElement) : List Token → Nat → Prop
  | [], _ => True
  | t :: ts, n =>
    t.Orderly inside ∧ (t.raw.length ≤ n → OrderlyUntil t.opens ts (n - t.raw.length))

instance decidableOrderlyUntil : (inside : Option RawElement) → (ts : List Token) → (n : Nat) →
    Decidable (OrderlyUntil inside ts n)
  | _, [], _ => .isTrue trivial
  | _, t :: ts, n =>
    have := decidableOrderlyUntil t.opens ts (n - t.raw.length)
    inferInstanceAs (Decidable (_ ∧ (_ → _)))

/-- How the scan stands where a token starts: in markup, in the content of the script or style
just opened, or still in the one that is closed next. -/
inductive Matches : Option RawElement → BraceContext → Bytes → Prop
  | markup {inside : Option RawElement} {s : Bytes}
      (ordinary : inside.filter RawElement.isCode = none) : Matches inside .markup s
  | content {e : RawElement} {s : Bytes} (code : e.isCode = true) : Matches (some e) (.inside e) s
  | closing {e : RawElement} {s : Bytes} (closes : s = [] ∨ closesHere e.name s = true) :
      Matches none (.inside e) s

/-- The scan goes through the token `t`: at no byte but a `<` it takes ordinary markup for the
content of a script or style, or the other way round. -/
structure Follows (inside : Option RawElement) (context : BraceContext) (t : Token)
    (rest : Bytes) : Prop where
  next : Matches t.opens (context.after t.raw rest) rest
  within : ∀ u b v, u ++ b :: v = t.raw → b ≠ lt →
    ((context.after u (b :: v ++ rest)).isInside = true ↔ (t.content? inside).isSome = true)

/-- Content that holds nothing like the end of its element is read inside it. -/
theorem follows_content {e : RawElement} (code : e.isCode = true) {s shown : Bytes}
    (orderly : (Token.text (e.span s).1 shown).Orderly (some e)) :
    Follows (some e) (.inside e) (.text (e.span s).1 shown) (e.span s).2 := by
  have content : (Token.text (e.span s).1 shown).content? (some e) = some e := by
    simp [Token.content?, code]
  have stays (u v : Bytes) (split : u ++ v = (e.span s).1) :
      (BraceContext.inside e).after u (v ++ (e.span s).2) = .inside e := by
    refine BraceContext.after_fixed fun a c w shape => ?_
    rw [BraceContext.next, if_neg]
    rintro ⟨rfl, closes⟩
    have within : (Bytes.lower (slash :: e.name)).all (· != lt) = true := by cases e <;> rfl
    rw [← List.append_assoc, ← startsWithFold_takeWhile lowered_angle within,
      takeWhile_append_angle (fun b => head_span), startsWithFold_takeWhile lowered_angle within]
      at closes
    obtain ⟨after, found⟩ := List.isPrefixOf_iff_prefix.mp closes
    have name : Bytes.lower (slash :: e.name) = slash :: e.name :=
      congrArg (slash :: ·) e.name_spec.2.1
    have lowered : Bytes.lower (a ++ lt :: w ++ v) =
        Bytes.lower a ++ lt :: Bytes.lower (w ++ v) := by
      rw [List.append_assoc, List.cons_append, Bytes.lower, List.map_append]
      rfl
    refine orderly.content e content ⟨Bytes.lower a, after, ?_⟩
    rw [Token.raw, ← split, shape, lowered, ← found, name]
    simp
  constructor
  · have whole := stays (e.span s).1 [] (by simp)
    rw [List.nil_append] at whole
    rw [Token.raw, whole]
    exact .closing (e.span_closes s)
  · intro u b v split _
    rw [stays u (b :: v) split, content]
    exact iff_of_true rfl rfl

section
variable {raw rest : Bytes} (parted : Parted raw rest) (unopened : Unopened raw)
include parted unopened

theorem after_unopened {a u v : Bytes} (split : a ++ u ++ v = raw) :
    BraceContext.markup.after u (v ++ rest) = .markup := by
  refine BraceContext.after_fixed fun b c w shape => ?_
  rw [BraceContext.next]
  split_ifs with angle
  · have place : raw = a ++ b ++ lt :: (w ++ v) := by rw [← split, shape, angle]; simp
    have none := unopened (lt :: (w ++ v)) ((List.mem_tails _ _).mpr ⟨a ++ b, place.symm⟩) rfl
    rw [← List.append_assoc, parted.opened? place]
    exact congrArg (Option.elim · _ _) none
  · rfl

end

/-- In a token where nothing looks like a tag of a script or style, markup stays markup. -/
theorem follows_markup {inside : Option RawElement} {t : Token} {rest : Bytes}
    (parted : Parted t.raw rest) (orderly : t.Orderly inside)
    (other : t.content? inside = none) (plain : t.code? = none) :
    Follows inside .markup t rest := by
  have unopened := orderly.other other plain
  constructor
  · have whole := after_unopened parted unopened (a := []) (u := t.raw) (v := []) (by simp)
    rw [List.nil_append] at whole
    rw [whole]
    exact .markup plain
  · intro u b v split _
    rw [after_unopened parted unopened (a := []) split, other]
    simp [BraceContext.isInside]

/-- The closing tag of a script or style ends it at its first byte. -/
theorem follows_closing {inside : Option RawElement} {e : RawElement} {t : Token} {s rest : Bytes}
    (parted : Parted t.raw rest) (orderly : t.Orderly inside) (whole : t.raw ++ rest = s)
    (nonempty : t.raw ≠ []) (closes : closesHere e.name s = true)
    (other : t.content? inside = none) (plain : t.code? = none) :
    Follows inside (.inside e) t rest := by
  have unopened := orderly.other other plain
  obtain ⟨c, after, rfl, -, named⟩ := RawElement.closesHere_spec closes
  obtain ⟨a, tail, raw⟩ := List.exists_cons_of_ne_nil nonempty
  rw [raw, List.cons_append, List.cons.injEq] at whole
  obtain ⟨rfl, whole⟩ := whole
  have ends (u v : Bytes) (split : u ++ v = tail) :
      (BraceContext.inside e).after (lt :: u) (v ++ rest) = .markup := by
    have leaves : (BraceContext.inside e).next lt (u ++ (v ++ rest)) = .markup := by
      rw [← List.append_assoc, split, whole, BraceContext.next, if_pos]
      exact ⟨rfl, named⟩
    rw [BraceContext.after, leaves]
    exact after_unopened parted unopened (a := [lt]) (by rw [raw, ← split]; rfl)
  constructor
  · rw [raw]
    have through := ends tail [] (by simp)
    rw [List.nil_append] at through
    rw [through]
    exact .markup plain
  · intro u b v split notAngle
    rw [raw] at split
    cases u with
    | nil => exact absurd (List.cons.inj split).1 notAngle
    | cons c u =>
      rw [List.cons_append, List.cons.injEq] at split
      obtain ⟨rfl, split⟩ := split
      rw [ends u (b :: v) split, other]
      simp [BraceContext.isInside]

/-- Between the angle brackets of a script or style tag the scan knows the element. -/
theorem after_tag {e : RawElement} {inner rest u v : Bytes} (calm : ∀ b ∈ inner, b ≠ lt ∧ b ≠ gt)
    (opened : BraceContext.opened? (inner ++ gt :: rest) = some e) (split : u ++ v = inner) :
    BraceContext.markup.after (lt :: u) (v ++ gt :: rest) = .opening e := by
  have enters : BraceContext.markup.next lt (u ++ (v ++ gt :: rest)) = .opening e := by
    rw [← List.append_assoc, split, BraceContext.next, if_pos rfl, opened]
    rfl
  rw [BraceContext.after, enters]
  exact BraceContext.after_calm (fun b mem => calm b (split ▸ List.mem_append_left v mem)) _

/-- The tag of a script or style leads into it, past the last byte. -/
theorem follows_tag {inside : Option RawElement} {e : RawElement} {t : Token} {inner rest : Bytes}
    (raw : t.raw = lt :: (inner ++ [gt])) (orderly : t.Orderly inside) (code : t.code? = some e)
    (opened : BraceContext.opened? (inner ++ gt :: rest) = some e) :
    Follows inside .markup t rest := by
  obtain ⟨opens, isCode⟩ := Option.filter_eq_some_iff.mp code
  have other : t.content? inside = none := by
    cases t <;> first | cases opens | rfl
  have bare := orderly.tag (by simp [code])
  rw [raw, List.tail_cons, List.dropLast_concat] at bare
  have calm : ∀ b ∈ inner, b ≠ lt ∧ b ≠ gt := fun b mem =>
    ⟨fun same => bare.1 (same ▸ mem), fun same => bare.2 (same ▸ mem)⟩
  constructor
  · have tag := after_tag calm opened (List.append_nil inner)
    have through : BraceContext.markup.after t.raw rest = .inside e := by
      rw [raw, ← List.cons_append, BraceContext.after_append]
      exact congrArg (·.after [gt] rest) tag
    rw [through, opens]
    exact .content isCode
  · intro u b v split notAngle
    rw [raw] at split
    cases u with
    | nil => exact absurd (List.cons.inj split).1 notAngle
    | cons a u =>
      rw [List.cons_append, List.cons.injEq] at split
      obtain ⟨rfl, split⟩ := split
      obtain ⟨v', last, ends⟩ := (List.eq_nil_or_concat' (b :: v)).resolve_left (by simp)
      rw [ends, ← List.append_assoc] at split
      obtain ⟨front, last⟩ := List.append_inj' split rfl
      rw [ends, last, List.append_assoc, List.singleton_append, after_tag calm opened front, other]
      simp [BraceContext.isInside]

theorem firstToken_tag {inside : Option RawElement} {s : Bytes} {e : RawElement}
    (code : (firstToken inside s).1.code? = some e) :
    ∃ inner, (firstToken inside s).1.raw = lt :: (inner ++ [gt]) ∧
      BraceContext.opened? (inner ++ gt :: (firstToken inside s).2) = some e := by
  obtain ⟨opens, isCode⟩ := Option.filter_eq_some_iff.mp code
  obtain ⟨c, body, parts, rest, rfl, letter, found, named, token⟩ := firstToken_opens opens
  obtain ⟨middle, raw, whole⟩ := tag_raw [lt] letter found
  have inner : c :: middle ++ gt :: rest = c :: body := by simpa using whole
  refine ⟨c :: middle, ?_, ?_⟩
  · rw [token]
    exact raw
  · rw [token, inner, opened?_tag found, named, Option.filter_some, if_pos isCode]

/-- Through an orderly token the scan agrees with it, and it stands right at the next. -/
theorem Matches.follows {inside : Option RawElement} {context : BraceContext} {s : Bytes}
    (h : Matches inside context s) (nonempty : s ≠ [])
    (orderly : (firstToken inside s).1.Orderly inside) :
    Follows inside context (firstToken inside s).1 (firstToken inside s).2 := by
  have parted := firstToken_parted inside s
  have whole := (firstToken_reads inside s).1
  have consumes : (firstToken inside s).1.raw ≠ [] := by
    intro empty
    have shorter := length_firstToken_lt inside nonempty
    rw [empty, List.nil_append] at whole
    rw [whole] at shorter
    exact absurd shorter (Nat.lt_irrefl _)
  have closing {e : RawElement} (closes : closesHere e.name s = true)
      (plain : firstToken inside s = plainToken s) :
      Follows inside (.inside e) (firstToken inside s).1 (firstToken inside s).2 := by
    have token : (firstToken inside s).1.content? inside = none ∧
        (firstToken inside s).1.code? = none := by
      obtain ⟨raw, ended | cut⟩ := plainToken_closes closes
      · rw [plain, ended]
        exact ⟨rfl, rfl⟩
      · rw [plain, cut]
        exact ⟨rfl, rfl⟩
    exact follows_closing parted orderly whole consumes closes token.1 token.2
  cases h with
  | markup ordinary =>
    have other : (firstToken inside s).1.content? inside = none := by
      rw [Token.content?.eq_def]
      split
      · exact ordinary
      · rfl
    cases code : (firstToken inside s).1.code? with
    | none => exact follows_markup parted orderly other code
    | some e =>
      obtain ⟨inner, raw, opened⟩ := firstToken_tag code
      exact follows_tag raw orderly code opened
  | @content e _ code =>
    -- content that is empty is no token: the element ends here already
    by_cases empty : (e.span s).1.isEmpty = true
    · have split := e.span_append s
      rw [List.isEmpty_iff.mp empty, List.nil_append] at split
      have closes := e.span_closes s
      rw [split] at closes
      exact closing (closes.resolve_left nonempty) (by rw [firstToken, if_pos empty])
    · rw [firstToken, if_neg empty] at orderly ⊢
      exact follows_content code orderly
  | closing closes => exact closing (closes.resolve_left nonempty) rfl

/-- A byte of a text in two parts is in the second or in the first. -/
theorem append_cons_cases {raw rest u v : Bytes} {b : UInt8} (h : raw ++ rest = u ++ b :: v) :
    (∃ u', u = raw ++ u' ∧ rest = u' ++ b :: v) ∨ ∃ w, raw = u ++ b :: w ∧ v = w ++ rest := by
  rcases List.append_eq_append_iff.mp h with second | ⟨w, raw, tail⟩
  · exact .inl second
  · cases w with
    | nil => exact .inl ⟨[], by simpa using raw.symm, tail.symm⟩
    | cons c w =>
      obtain ⟨rfl, rfl⟩ := List.cons.inj tail
      exact .inr ⟨w, raw, rfl⟩

/-- The scan agrees with the tokens, as long as they are orderly. -/
theorem Matches.inside_iff {inside : Option RawElement} {context : BraceContext} {s u v : Bytes}
    {b : UInt8} (h : Matches inside context s) (split : s = u ++ b :: v) (plain : b ≠ lt)
    (orderly : OrderlyUntil inside (tokensFrom inside s) u.length) :
    (context.after u (b :: v)).isInside = true ↔
      (contentAt inside (tokensFrom inside s) u.length).isSome = true := by
  induction inside, s using tokensFrom.induct generalizing context u with
  | case1 inside => simp at split
  | case2 inside s nonempty _ ih =>
    rw [tokensFrom, dif_neg nonempty] at orderly ⊢
    obtain ⟨first, later⟩ := orderly
    have follows := h.follows nonempty first
    have whole := (firstToken_reads inside s).1.trans split
    rcases append_cons_cases whole with ⟨u', rfl, rest⟩ | ⟨w, raw, rfl⟩
    · have skipped : ((firstToken inside s).1.raw ++ u').length -
          (firstToken inside s).1.raw.length = u'.length := by simp
      have passed : (firstToken inside s).1.raw.length ≤
          ((firstToken inside s).1.raw ++ u').length := by simp
      have step := ih follows.next rest (skipped ▸ later passed)
      rw [BraceContext.after_append, ← rest, contentAt, if_neg (Nat.not_lt.mpr passed), skipped]
      exact step
    · -- the byte is one of this token
      have here : u.length < (firstToken inside s).1.raw.length := by simp [raw]
      rw [contentAt, if_pos here]
      exact follows.within u b w raw.symm plain

end Markup

namespace Masked

/-- A bare brace is literal text in the content of scripts and styles and nowhere else, as long as
the tokens up to it are orderly. Elsewhere it opens a statement. -/
theorem bare_brace_literal {src rest : Bytes} {m front back : Masked} {p : Piece}
    (masked : ofSource .brace src = .ok m) (split : m = front ++ p :: back)
    (brace : source (p :: back) = lbrace :: rest) (bare : rest.head? ≠ some equals)
    (orderly : Markup.OrderlyUntil none (Markup.tokens m.text) front.text.length) :
    (p = .byte lbrace ↔
        ∃ e, Markup.contentAt none (Markup.tokens m.text) front.text.length = some e) ∧
      (p ≠ .byte lbrace → ∃ b, p = .block b ∧ b.kind = .statement) := by
  obtain ⟨state, cut⟩ := (ofSource_ok.mp masked).context_at (by simp [BraceContext.Known]) split
  obtain ⟨literal, block⟩ := cut.bare_brace brace bare
  refine ⟨literal.trans ?_, block⟩
  obtain ⟨c, shown, head, plain⟩ : ∃ c shown, text (p :: back) = c :: shown ∧ c ≠ lt := by
    by_cases byte : p = .byte lbrace
    · exact ⟨lbrace, text back, by rw [byte]; rfl, by decide⟩
    · obtain ⟨b, rfl, -⟩ := block byte
      obtain ⟨c, shown, head⟩ : ∃ c shown, b.shown = c :: shown := by
        rw [Block.shown, mark, markOpen]
        split <;> exact ⟨_, _, rfl⟩
      refine ⟨c, shown ++ text back, ?_, (shown_calm b c (by simp [head])).1⟩
      exact congrArg (· ++ text back) head
  have whole : m.text = front.text ++ c :: shown := by rw [split, text_append, head]
  rw [head, ← Option.isSome_iff_exists]
  exact (Markup.Matches.markup rfl).inside_iff whole plain orderly

/-- A brace in a style is literal text, and one before it is not. -/
theorem bare_brace_literal_style :
    let first : Piece := .block ⟨0, .statement, utf8 "a", utf8 "\x7ba\x7d", false⟩
    let before : Masked := first :: (utf8 "<style>p").map .byte
    let after : Masked := (utf8 "b\x7d</style>").map .byte
    let m : Masked := before ++ .byte lbrace :: after
    ofSource .brace (utf8 "\x7ba\x7d<style>p\x7bb\x7d</style>") = .ok m ∧
      Markup.OrderlyUntil none (Markup.tokens m.text) before.text.length ∧
      (∃ e, Markup.contentAt none (Markup.tokens m.text) before.text.length = some e) ∧
      ¬∃ e, Markup.contentAt none (Markup.tokens m.text) 0 = some e := by
  intro first before after m
  have masked : ofSource .brace (utf8 "\x7ba\x7d<style>p\x7bb\x7d</style>") = .ok m := by
    decide +kernel
  have orderly : Markup.OrderlyUntil none (Markup.tokens m.text) before.text.length := by
    decide +kernel
  have inStyle : m = before ++ .byte lbrace :: after := rfl
  have atStart : m = [] ++ first :: m.tail := rfl
  refine ⟨masked, orderly, ?_, ?_⟩
  · exact (bare_brace_literal masked inStyle rfl (by decide) orderly).1.mp rfl
  · have code := (bare_brace_literal masked atStart rfl (by decide) (by decide +kernel)).1
    exact fun inside => absurd (code.mpr inside) (by decide)

/-- The template is read, and its tokens say otherwise than the scan about a bare brace, the
piece after `front`. -/
def Misread (src : Bytes) (front : Masked) (p : Piece) (back : Masked) : Prop :=
  ofSource .brace src = .ok (front ++ p :: back) ∧ (Document.parse .brace src).isOk = true ∧
    p.written.head? = some lbrace ∧
    ¬(p = .byte lbrace ↔ (Markup.contentAt none (Markup.tokens (text (front ++ p :: back)))
      front.text.length).isSome = true)

instance (src : Bytes) (front : Masked) (p : Piece) (back : Masked) :
    Decidable (Misread src front p back) :=
  inferInstanceAs (Decidable (_ ∧ _ ∧ _ ∧ ¬_))

/-- Tokens that are not orderly are misread: a script tag in a comment, one with a `>` in a value,
and a style with a closing tag of a longer name. -/
theorem bare_brace_misread :
    let bytes (s : String) : Masked := (utf8 s).map .byte
    Misread (utf8 "<!--<script>--><p>\x7bx\x7d</p>") (bytes "<!--<script>--><p>") (.byte lbrace)
        (bytes "x\x7d</p>") ∧
      Misread (utf8 "<script title=\"a>\x7bx\x7d\"></script>") (bytes "<script title=\"a>")
        (.byte lbrace) (bytes "x\x7d\"></script>") ∧
      Misread (utf8 "<style></styley>\x7bx\x7d</style>") (bytes "<style></styley>")
        (.block ⟨0, .statement, utf8 "x", utf8 "\x7bx\x7d", false⟩) (bytes "</style>") := by
  refine ⟨?_, ?_, ?_⟩
  · decide +kernel
  · decide +kernel
  · decide +kernel

end Masked

end DomTemplate
