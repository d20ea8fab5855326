import DomTemplate.Proofs.NestedCode
import DomTemplate.Proofs.Rewriting

/-! When the lead of a mark depends on code. Whether a block stands for a tag name is decided
by looking ahead for the end of the tag, in the text as written. The search passes over
blocks, but a quoted value is passed over byte by byte, and so are strings between bare braces
of a script: code with a quote or a backslash in it can end them early. Code without these
cannot, and then the search finds the same whatever the code says. -/

namespace DomTemplate
open Ascii

/-- Neither a quote nor a backslash. -/
def isQuiet (b : UInt8) : Bool := !(isCodeQuote b || b == backslash)

/-- Texts that are the same up to quiet blocks. `afterBackslash` says that a backslash stands
before the text, where a brace opens no block. -/
inductive Similar (d : Delimiters) : (afterBackslash : Bool) → Bytes → Bytes → Prop where
  | nil {afterBackslash : Bool} : Similar d afterBackslash [] []
  | byte {afterBackslash : Bool} {c : UInt8} {s s' : Bytes}
      (outside : d = .erb → d.afterBlock? afterBackslash (c :: s) = none ∧
        d.afterBlock? afterBackslash (c :: s') = none)
      (after : Similar d (c == backslash) s s') : Similar d afterBackslash (c :: s) (c :: s')
  | block {afterBackslash : Bool} {inner inner' written written' s s' : Bytes}
      (unescaped : d = .brace → afterBackslash = false)
      (encloses : d.Encloses inner written) (encloses' : d.Encloses inner' written')
      (quiet : ∀ b ∈ written, isQuiet b = true) (quiet' : ∀ b ∈ written', isQuiet b = true)
      (after : Similar d false s s') : Similar d afterBackslash (written ++ s) (written' ++ s')

section
variable {d : Delimiters} {afterBackslash : Bool} {s s' : Bytes}

theorem isQuiet_iff {b : UInt8} : isQuiet b = true ↔ isCodeQuote b = false ∧ b ≠ backslash := by
  simp [isQuiet]

theorem ne_of_isQuiet {mark b : UInt8} (quote : isCodeQuote mark = true) (quiet : isQuiet b = true) :
    b ≠ backslash ∧ b ≠ mark := by
  rw [isQuiet_iff] at quiet
  refine ⟨quiet.2, ?_⟩
  rintro rfl
  simp [quote] at quiet

/-- A quoted text passes over what is quiet. -/
theorem afterQuoted?_quiet {mark : UInt8} (quote : isCodeQuote mark = true) {written : Bytes}
    (quiet : ∀ b ∈ written, isQuiet b = true) (rest : Bytes) :
    afterQuoted? mark false (written ++ rest) = afterQuoted? mark false rest := by
  induction written with
  | nil => rfl
  | cons c cs ih =>
    obtain ⟨unescaped, other⟩ := ne_of_isQuiet quote (quiet c List.mem_cons_self)
    rw [List.cons_append, afterQuoted?, if_neg Bool.false_ne_true, if_neg unescaped, if_neg other]
    exact ih fun b mem => quiet b (List.mem_cons_of_mem _ mem)

theorem afterQuoted?_similar {mark : UInt8} (quote : isCodeQuote mark = true)
    (h : Similar d afterBackslash s s') (escaped : Bool) :
    Option.Rel (Similar d false) (afterQuoted? mark escaped s) (afterQuoted? mark escaped s') := by
  induction h generalizing escaped with
  | nil => cases escaped <;> exact .none
  | @byte afterBackslash c s s' outside after ih =>
    rw [afterQuoted?, afterQuoted?]
    split_ifs with esc backs same
    · exact ih false
    · exact ih true
    · have plain : (c == backslash) = false := beq_eq_false_iff_ne.mpr backs
      rw [plain] at after
      exact .some after
    · exact ih false
  | @block afterBackslash inner inner' written written' s s' unescaped encloses encloses' quiet
      quiet' after ih =>
    have passes {w i t : Bytes} (e : d.Encloses i w) (q : ∀ b ∈ w, isQuiet b = true) :
        afterQuoted? mark escaped (w ++ t) = afterQuoted? mark false t := by
      cases escaped with
      | false => exact afterQuoted?_quiet quote q t
      | true =>
        obtain ⟨c, cs, rfl⟩ := e.ne_nil
        rw [List.cons_append, afterQuoted?, if_pos rfl]
        exact afterQuoted?_quiet quote (fun b mem => q b (List.mem_cons_of_mem _ mem)) t
    rw [passes encloses quiet, passes encloses' quiet']
    exact ih false

theorem braceSpan?_quiet {mark : UInt8} (quote : isCodeQuote mark = true) {written : Bytes}
    (quiet : ∀ b ∈ written, isQuiet b = true) (depth : Nat) (rest : Bytes) :
    (braceSpan? (.quoted mark) depth (written ++ rest)).map Prod.snd =
      (braceSpan? (.quoted mark) depth rest).map Prod.snd := by
  induction written with
  | nil => rfl
  | cons c cs ih =>
    obtain ⟨unescaped, other⟩ := ne_of_isQuiet quote (quiet c List.mem_cons_self)
    rw [List.cons_append, braceSpan?, if_neg (by simp), Option.map_map]
    simp only [CodeState.next, CodeState.depthAfter, if_neg unescaped, if_neg other]
    exact ih fun b mem => quiet b (List.mem_cons_of_mem _ mem)

/-- A string of code is between quotes, and a byte is escaped only after a backslash. -/
def CodeState.Fits (afterBackslash : Bool) : CodeState → Prop
  | code => True
  | quoted mark => isCodeQuote mark = true
  | escaped mark => isCodeQuote mark = true ∧ afterBackslash = true

theorem CodeState.fits_next {state : CodeState} (fits : state.Fits afterBackslash) (c : UInt8) :
    (state.next c).Fits (c == backslash) := by
  cases state with
  | code =>
    rw [CodeState.next]
    split_ifs with quote
    · exact quote
    · exact trivial
  | quoted mark =>
    rw [CodeState.next]
    split_ifs with backs ends
    · exact ⟨fits, beq_iff_eq.mpr backs⟩
    · exact trivial
    · exact fits
  | escaped mark => exact fits.1

/-- Passing over text between bare braces gives the same for similar texts. -/
theorem braceSpan?_similar (h : Similar .brace afterBackslash s s') {state : CodeState}
    (fits : state.Fits afterBackslash) (depth : Nat) :
    Option.Rel (Similar .brace false) ((braceSpan? state depth s).map Prod.snd)
      ((braceSpan? state depth s').map Prod.snd) := by
  induction h generalizing state depth with
  | nil => exact .none
  | @byte afterBackslash c s s' outside after ih =>
    rw [braceSpan?, braceSpan?]
    split
    · rename_i ends
      have plain : (c == backslash) = false := by rw [ends.2.1]; rfl
      rw [plain] at after
      exact .some after
    · rw [Option.map_map, Option.map_map]
      exact ih (CodeState.fits_next fits c) _
  | @block afterBackslash inner inner' written written' s s' unescaped encloses encloses' quiet
      quiet' after ih =>
    cases state with
    | code =>
      have passes {w i t : Bytes} (e : Delimiters.brace.Encloses i w) :
          (braceSpan? .code depth (w ++ t)).map Prod.snd =
            (braceSpan? .code depth t).map Prod.snd := by
        obtain ⟨rfl, ends⟩ := e
        have block := Derives.block (braceSpan?_eq_some_iff.mp (ends [])).2
        rw [List.cons_append, block.braceSpan?_append, Option.map_map]
        rfl
      rw [passes encloses, passes encloses']
      exact ih (show CodeState.code.Fits false from trivial) depth
    | quoted mark =>
      rw [braceSpan?_quiet fits quiet, braceSpan?_quiet fits quiet']
      exact ih (show (CodeState.quoted mark).Fits false from fits) depth
    | escaped mark =>
      have backs := fits.2
      rw [unescaped rfl] at backs
      cases backs

/-- What follows a block is found right behind it. -/
theorem afterBlock?_block {inner written : Bytes} (encloses : d.Encloses inner written)
    (unescaped : d = .brace → afterBackslash = false) (rest : Bytes) :
    d.afterBlock? afterBackslash (written ++ rest) = some rest := by
  cases d with
  | brace =>
    obtain ⟨rfl, ends⟩ := encloses
    have whole : lbrace :: inner ++ [rbrace] ++ rest = lbrace :: (inner ++ rbrace :: rest) := by simp
    rw [whole, Delimiters.afterBlock?, if_pos ⟨rfl, by simp [unescaped rfl]⟩, ends]
    rfl
  | erb =>
    obtain ⟨rfl, unescaped, code, ends⟩ := encloses
    have whole : erbOpen ++ inner ++ erbClose ++ rest =
        lt :: percent :: (inner ++ erbClose ++ rest) := by
      rw [List.append_assoc erbOpen, List.append_assoc erbOpen]
      rfl
    have opens := isPrefixOf_erbOpen.mpr (⟨rfl, rfl⟩ : lt = lt ∧
      (percent :: (inner ++ erbClose ++ rest)).head? = some percent)
    have noEscape : erbEscape.isPrefixOf (lt :: percent :: (inner ++ erbClose ++ rest)) = false := by
      rw [Bool.eq_false_iff]
      intro escape
      obtain ⟨a, as, rfl⟩ := List.exists_cons_of_ne_nil code
      exact unescaped (isPrefixOf_erbEscape.mp escape).2.2
    rw [whole, Delimiters.afterBlock?, opens, noEscape]
    simp only [Bool.not_false, Bool.and_true, if_true, List.drop_one, List.tail_cons, ends]
    rfl

/-- No block starts where no opener stands, nor at an escaped one. -/
theorem afterBlock?_erb {c : UInt8}
    (h : c = lt ∧ s.head? = some percent → s.tail.head? = some percent) :
    Delimiters.erb.afterBlock? afterBackslash (c :: s) = none := by
  rw [Delimiters.afterBlock?, if_neg]
  intro starts
  rw [Bool.and_eq_true, isPrefixOf_erbOpen] at starts
  have escape := isPrefixOf_erbEscape.mpr ⟨starts.1.1, starts.1.2, h starts.1⟩
  rw [escape] at starts
  exact absurd starts.2 (by decide)

theorem afterBlock?_similar {c : UInt8}
    (outside : d = .erb → d.afterBlock? afterBackslash (c :: s) = none ∧
      d.afterBlock? afterBackslash (c :: s') = none) (after : Similar d (c == backslash) s s') :
    Option.Rel (Similar d false) (d.afterBlock? afterBackslash (c :: s))
      (d.afterBlock? afterBackslash (c :: s')) := by
  cases d with
  | erb =>
    rw [(outside rfl).1, (outside rfl).2]
    exact .none
  | brace =>
    rw [Delimiters.afterBlock?, Delimiters.afterBlock?]
    split
    · rename_i opens
      exact braceSpan?_similar after (show CodeState.code.Fits _ from trivial) 0
    · exact .none

theorem closesTag_cons (afterEquals : Bool) (c : UInt8) (cs : Bytes) :
    closesTag d afterBackslash afterEquals (c :: cs) =
      match d.afterBlock? afterBackslash (c :: cs) with
      | some rest => closesTag d false false rest
      | none =>
        if c = gt then true
        else if c = lt then false
        else if (c = quote ∨ c = apostrophe) ∧ afterEquals then
          match afterQuoted? c false cs with
          | some rest => closesTag d false false rest
          | none => false
        else
          closesTag d (c == backslash) (c == equals || (afterEquals && isTagSpace c)) cs := by
  rw [closesTag]
  split
  · rename_i found
    simp only [found]
  · rename_i absent
    simp only [absent]
    split_ifs
    · rfl
    · rfl
    · split <;> rename_i ends <;> simp only [ends]
    · rfl

theorem closesTag_block {rest : Bytes} (found : d.afterBlock? afterBackslash s = some rest)
    (afterEquals : Bool) :
    closesTag d afterBackslash afterEquals s = closesTag d false false rest := by
  cases s with
  | nil => exact absurd (Delimiters.length_afterBlock?_lt found) (Nat.not_lt_zero _)
  | cons c cs => rw [closesTag_cons, found]

/-- What the search for the end of a tag meets first in two texts: their ends, a block in each, or
one byte, where a block ends in both or in neither, and so does a quoted value behind it. What is
left is `related`. -/
inductive SameStep (d d' : Delimiters) (related : Bool → Bytes → Bytes → Prop)
    (afterBackslash : Bool) : Bytes → Bytes → Prop where
  | nil : SameStep d d' related afterBackslash [] []
  | block {s s' rest rest' : Bytes} (found : d.afterBlock? afterBackslash s = some rest)
      (found' : d'.afterBlock? afterBackslash s' = some rest') (after : related false rest rest') :
      SameStep d d' related afterBackslash s s'
  | byte {c : UInt8} {s s' : Bytes}
      (blocks : Option.Rel (related false) (d.afterBlock? afterBackslash (c :: s))
        (d'.afterBlock? afterBackslash (c :: s')))
      (quoted : isCodeQuote c = true →
        Option.Rel (related false) (afterQuoted? c false s) (afterQuoted? c false s'))
      (after : related (c == backslash) s s') :
      SameStep d d' related afterBackslash (c :: s) (c :: s')

/-- The search finds the same in texts through which it goes in step. -/
theorem closesTag_inStep {d' : Delimiters} {related : Bool → Bytes → Bytes → Prop}
    (step : ∀ {b s s'}, related b s s' → SameStep d d' related b s s')
    (h : related afterBackslash s s') (afterEquals : Bool) :
    closesTag d afterBackslash afterEquals s = closesTag d' afterBackslash afterEquals s' := by
  induction length : s.length using Nat.strongRecOn generalizing afterBackslash afterEquals s s' with
  | ind size ih =>
    cases step h with
    | nil => rw [closesTag, closesTag]
    | block found found' after =>
      rw [closesTag_block found, closesTag_block found']
      exact ih _ (length ▸ Delimiters.length_afterBlock?_lt found) after false rfl
    | @byte c s s' blocks quoted after =>
      rw [List.length_cons] at length
      have shorter := @Delimiters.length_afterBlock?_lt d afterBackslash (c :: s)
      rw [closesTag_cons, closesTag_cons]
      generalize d.afterBlock? afterBackslash (c :: s) = block,
        d'.afterBlock? afterBackslash (c :: s') = block' at blocks shorter
      cases blocks with
      | some after =>
        have less := shorter rfl
        exact ih _ (by simp only [List.length_cons] at less; omega) after false rfl
      | none =>
        simp only
        split_ifs with closes opens quote
        · rfl
        · rfl
        · have ends := quoted (by rcases quote.1 with rfl | rfl <;> rfl)
          have shorter := @length_afterQuoted?_lt c false s
          generalize afterQuoted? c false s = rest, afterQuoted? c false s' = rest' at ends shorter
          cases ends with
          | some after =>
            have less := shorter rfl
            exact ih _ (by omega) after false rfl
          | none => rfl
        · exact ih _ (by omega) after _ rfl

/-- The search for the end of a tag finds the same in similar texts. -/
theorem closesTag_similar (h : Similar d afterBackslash s s') (afterEquals : Bool) :
    closesTag d afterBackslash afterEquals s = closesTag d afterBackslash afterEquals s' := by
  refine closesTag_inStep (fun h => ?_) h afterEquals
  cases h with
  | nil => exact .nil
  | block unescaped encloses encloses' quiet quiet' after =>
    exact .block (afterBlock?_block encloses unescaped _) (afterBlock?_block encloses' unescaped _)
      after
  | byte outside after =>
    exact .byte (afterBlock?_similar outside after)
      (fun quote => afterQuoted?_similar quote after false) after

end

/-- A block without quotes and backslashes, or no block. -/
def Piece.isQuiet : Piece → Bool
  | block b => b.written.all DomTemplate.isQuiet
  | _ => true

namespace Lockstep
variable {d : Delimiters} {before before' s s' : Bytes} {m m' : Masked}

theorem similar (h : Lockstep d before before' s s' m m') (quiet : m.all Piece.isQuiet = true)
    (quiet' : m'.all Piece.isQuiet = true) {afterBackslash : Bool}
    (apart : d = .brace → afterBackslash = true → s.head? ≠ some lbrace) :
    Similar d afterBackslash s s' := by
  induction h generalizing afterBackslash with
  | nil => exact .nil
  | escape after ih =>
    rw [List.all_cons, Bool.and_eq_true] at quiet quiet'
    cases d with
    | brace =>
      refine .byte nofun (.byte nofun (ih quiet.2 quiet'.2 fun _ backs => ?_))
      exact absurd backs (by decide)
    | erb =>
      have escape (ab : Bool) (t : Bytes) :
          Delimiters.erb.afterBlock? ab (lt :: percent :: percent :: t) = none :=
        afterBlock?_erb fun _ => rfl
      have inside (ab : Bool) (t : Bytes) : Delimiters.erb.afterBlock? ab (percent :: t) = none :=
        afterBlock?_erb fun opens => absurd opens.1 (by decide)
      exact .byte (fun _ => ⟨escape _ _, escape _ _⟩) (.byte (fun _ => ⟨inside _ _, inside _ _⟩)
        (.byte (fun _ => ⟨inside _ _, inside _ _⟩) (ih quiet.2 quiet'.2 nofun)))
  | @block before before' s s' inner inner' m m' b b' encloses encloses' number kind lead lead'
      after ih =>
    rw [List.all_cons, Bool.and_eq_true] at quiet quiet'
    refine .block (fun brace => ?_) encloses encloses' (List.all_eq_true.mp quiet.1)
      (List.all_eq_true.mp quiet'.1) (ih quiet.2 quiet'.2 fun _ backs => by cases backs)
    cases afterBackslash with
    | false => rfl
    | true =>
      refine absurd ?_ (apart brace rfl)
      rw [encloses.head?_eq, brace]
      rfl
  | @byte before before' s s' m m' c context plain plain' after ih =>
    rw [List.all_cons, Bool.and_eq_true] at quiet quiet'
    refine .byte (fun erb => ?_) (ih quiet.2 quiet'.2 fun brace backs first => ?_)
    · subst erb
      exact ⟨afterBlock?_erb fun opens => absurd opens plain,
        afterBlock?_erb fun opens => absurd opens plain'⟩
    · subst brace
      exact plain (.inl ⟨beq_iff_eq.mp backs, first⟩)

/-- Quiet code decides no lead. -/
theorem leads_eq (h : Lockstep d before before' s s' m m') (same : before' = before)
    (quiet : m.all Piece.isQuiet = true) (quiet' : m'.all Piece.isQuiet = true) :
    m.map Piece.lead = m'.map Piece.lead := by
  induction h with
  | nil => rfl
  | escape after ih | byte plain plain' after ih =>
    rw [List.all_cons, Bool.and_eq_true] at quiet quiet'
    rw [List.map_cons, List.map_cons, ih (by rw [same]) quiet.2 quiet'.2]
  | @block before before' s s' inner inner' m m' b b' encloses encloses' number kind lead lead'
      after ih =>
    rw [List.all_cons, Bool.and_eq_true] at quiet quiet'
    have search : closesTag d false false s = closesTag d false false s' :=
      closesTag_similar (after.similar quiet.2 quiet'.2 fun _ backs => by cases backs) false
    have leads : b.lead = b'.lead := by rw [lead, lead', same, search]
    have shown : b'.shown = b.shown := by rw [Block.shown, Block.shown, leads, number]
    rw [List.map_cons, List.map_cons, Piece.lead, Piece.lead, leads,
      ih (by rw [same, shown]) quiet.2 quiet'.2]

end Lockstep

/-- Two sources that differ in the code of their blocks only are read to the same outline if
the same marks have a lead, and so whenever the code holds neither quotes nor backslashes. -/
theorem Document.parse_rewritten {d : Delimiters} {src src' : Bytes} {m : Masked}
    (masked : Masked.ofSource d src = .ok m) (rewritten : Rewritten d m src')
    (clean : reservedOffset? src = none) (clean' : reservedOffset? src' = none) :
    ∃ m', Masked.ofSource d src' = .ok m' ∧
      (m.map Piece.lead = m'.map Piece.lead ∨
          m.all Piece.isQuiet = true ∧ m'.all Piece.isQuiet = true →
        Agree Document.outline (Document.parse d src) (Document.parse d src')) := by
  obtain ⟨m', cut, step⟩ := (Masked.ofSource_ok.mp masked).rewrite rewritten {} rfl
  have masked' := Masked.ofSource_ok.mpr cut
  refine ⟨m', masked', fun condition => ?_⟩
  have leads : m.map Piece.lead = m'.map Piece.lead := by
    rcases condition with leads | ⟨quiet, quiet'⟩
    · exact leads
    · exact step.leads_eq rfl quiet quiet'
  have nodes := @MaskedSource.nodes_agree ⟨src, m⟩ ⟨src', m'⟩ (step.sameMarks leads 0 0) 0 0
    (Markup.tokens m.text)
  simp only [Document.parse, clean, clean', masked, masked']
  rw [← step.text_eq leads]
  refine nodes.map fun ns ns' same => ?_
  rw [Document.outline, Document.outline, same]

/-- `<\{=t\} a="` with a value and `"></\{=t\}>`. -/
def boundTag (value : Bytes) : Bytes :=
  utf8 "<\x7b=t\x7d a=\"" ++ value ++ utf8 "\"></\x7b=t\x7d>"

def boundPieces : Masked :=
  [.byte lt, .block ⟨0, .expression, utf8 "t", utf8 "\x7b=t\x7d", true⟩, .byte space, .byte 0x61,
    .byte equals, .byte quote, .block ⟨1, .expression, utf8 "x", utf8 "\x7b=x\x7d", false⟩,
    .byte quote, .byte gt, .byte lt, .byte slash,
    .block ⟨2, .expression, utf8 "t", utf8 "\x7b=t\x7d", true⟩, .byte gt]

theorem masked_boundTag : Masked.ofSource .brace (boundTag (utf8 "\x7b=x\x7d")) = .ok boundPieces := by
  decide +kernel

theorem rewritten_boundTag {value : Bytes} {b : Block}
    (single : Masked.ofSource .brace value = .ok [.block b]) (kind : b.kind = .expression) :
    Rewritten .brace boundPieces (boundTag value) := by
  have name : Masked.ofSource .brace (utf8 "\x7b=t\x7d") =
      .ok [.block ⟨0, .expression, utf8 "t", utf8 "\x7b=t\x7d", false⟩] := by decide +kernel
  have close : Rewritten .brace _ _ := .byte (c := quote) (.byte (c := gt) (.byte (c := lt)
    (.byte (c := slash) (.block (b := ⟨2, .expression, utf8 "t", utf8 "\x7b=t\x7d", true⟩) name rfl
      (.byte (c := gt) .nil)))))
  have whole : Rewritten .brace boundPieces _ := .byte (.block name rfl (.byte (.byte (.byte (.byte
    (.block single kind close))))))
  have same : boundTag value = _ := List.append_assoc _ _ _
  rw [same]
  exact whole

/-- Angle brackets in the code of a value change nothing, though a tag is around it. -/
theorem Document.parse_rewritten_angles :
    Rewritten .brace boundPieces (boundTag (utf8 "\x7b=a<b>c\x7d")) ∧
      Agree Document.outline (Document.parse .brace (boundTag (utf8 "\x7b=x\x7d")))
        (Document.parse .brace (boundTag (utf8 "\x7b=a<b>c\x7d"))) := by
  have single : Masked.ofSource .brace (utf8 "\x7b=a<b>c\x7d") =
      .ok [.block ⟨0, .expression, utf8 "a<b>c", utf8 "\x7b=a<b>c\x7d", false⟩] := by decide +kernel
  have rewritten := rewritten_boundTag single rfl
  obtain ⟨m', masked', agree⟩ := Document.parse_rewritten masked_boundTag rewritten
    (by decide +kernel) (by decide +kernel)
  refine ⟨rewritten, agree (.inr ⟨by decide +kernel, ?_⟩)⟩
  have quiet : ((Masked.ofSource .brace (boundTag (utf8 "\x7b=a<b>c\x7d"))).toOption.getD []).all
      Piece.isQuiet = true := by decide +kernel
  rwa [masked'] at quiet

/-- A quote in the code of a value does: the tag is then read as text. -/
theorem Document.parse_rewritten_quotes :
    Masked.ofSource .brace (boundTag (utf8 "\x7b=x\x7d")) = .ok boundPieces ∧
      Rewritten .brace boundPieces (boundTag (utf8 "\x7b=f(\"<\")\x7d")) ∧
      reservedOffset? (boundTag (utf8 "\x7b=x\x7d")) = none ∧
      reservedOffset? (boundTag (utf8 "\x7b=f(\"<\")\x7d")) = none ∧
      ¬Agree Document.outline (Document.parse .brace (boundTag (utf8 "\x7b=x\x7d")))
        (Document.parse .brace (boundTag (utf8 "\x7b=f(\"<\")\x7d"))) := by
  have single : Masked.ofSource .brace (utf8 "\x7b=f(\"<\")\x7d") =
      .ok [.block ⟨0, .expression, utf8 "f(\"<\")", utf8 "\x7b=f(\"<\")\x7d", false⟩] := by
    decide +kernel
  refine ⟨masked_boundTag, rewritten_boundTag single rfl, by decide +kernel, by decide +kernel, ?_⟩
  unfold Agree
  decide +kernel

end DomTemplate
