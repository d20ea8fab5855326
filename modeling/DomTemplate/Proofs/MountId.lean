import DomTemplate.Config
import DomTemplate.Proofs.EntityNames
import DomTemplate.Proofs.Layout
import DomTemplate.Proofs.Literals
import DomTemplate.Proofs.RoundTrip
import DomTemplate.Proofs.ScriptPage

/-! The element that a page declares and the one that its program looks up. One id is written twice:
escaped as an attribute, and quoted as a string of the program, which a `umd` page quotes once more
as a whole. The attribute is read as the id. So is the string, but for the interpolations of Ruby,
which the quotes of an id do not take away. -/

namespace DomTemplate
open Ascii Bytes Markup

namespace Markup.Entity

/-- A named reference and its semicolon stand for the text that has the name. -/
theorem decode_named (name t : Bytes) {text : Bytes} (nonempty : name ≠ [])
    (letters : name.all isAlphanumeric = true)
    (found : lookup? (name ++ [semicolon]) = some text) :
    decode (amp :: (name ++ semicolon :: t)) = text ++ decode t := by
  have inside := List.all_eq_true.mp letters
  have named : nameOf (name ++ semicolon :: t) = name ++ [semicolon] := by
    rw [nameOf, takeWhile_append_stop inside rfl]
    simp
  have numeric : (name ++ semicolon :: t).head? ≠ some sharp := by
    obtain ⟨c, name, rfl⟩ := List.exists_cons_of_ne_nil nonempty
    intro first
    rw [List.cons_append, List.head?_cons, Option.some.injEq] at first
    have letter := inside c List.mem_cons_self
    rw [first] at letter
    cases letter
  have refers : reference? (name ++ semicolon :: t) = some (text, name.length + 1) := by
    rw [reference?, if_neg numeric, namedReference?, named]
    simp [found]
  have rest : (name ++ semicolon :: t).drop (name.length + 1) = t := by
    rw [List.append_cons, List.drop_left' (by simp)]
  rw [decode, decodeFrom, if_pos rfl, refers]
  simp only [decodeFrom_drop (name.length + 1), rest, decode]

end Markup.Entity

theorem escapeRules_eq : escapeRules =
    [⟨[amp], amp :: ([0x61, 0x6D, 0x70] ++ [semicolon])⟩,
     ⟨[apostrophe], [amp, sharp, 0x33, 0x39, semicolon]⟩,
     ⟨[lt], amp :: ([0x6C, 0x74] ++ [semicolon])⟩, ⟨[gt], amp :: ([0x67, 0x74] ++ [semicolon])⟩,
     ⟨[quote], [amp, sharp, 0x33, 0x34, semicolon]⟩] := rfl

theorem replaced_escape (s : Bytes) : Rule.Replaced escapeRules s (escape s) :=
  Rule.replaced_applyAll (by simp [escapeRules_eq]) s

/-- An escaped text is decoded to the text. -/
theorem decode_escape (s : Bytes) : Entity.decode (escape s) = s := by
  have taken : ∃ rule ∈ escapeRules, rule.pattern = [amp] := by simp [escapeRules_eq]
  have references : ∀ rule ∈ escapeRules, ∀ k,
      Entity.decode (rule.output ++ k) = rule.pattern ++ Entity.decode k := by
    simp only [escapeRules_eq, List.forall_mem_cons]
    exact ⟨fun k => Entity.decode_named [0x61, 0x6D, 0x70] k (by simp) rfl Entity.lookup?_amp,
      fun k => Entity.decode_decimal 0x33 0x39 [] k rfl rfl,
      fun k => Entity.decode_named [0x6C, 0x74] k (by simp) rfl Entity.lookup?_lt,
      fun k => Entity.decode_named [0x67, 0x74] k (by simp) rfl Entity.lookup?_gt,
      fun k => Entity.decode_decimal 0x33 0x34 [] k rfl rfl, by simp⟩
  have decoded := (replaced_escape s).decode taken references []
  rw [List.append_nil] at decoded
  exact decoded.trans (List.append_nil s)

/-- The id of an element, as its start tag gives it. -/
def Markup.Token.id? : Token → Option Bytes
  | .startTag _ parts => (parts.attributes.lookup (utf8 "id")).map Entity.decode
  | _ => none

/-- The attribute of the mount element. -/
def mountAttribute (id : Bytes) : PrintedAttribute := ⟨utf8 "id", some (escape id)⟩

theorem render_mount (id rest : Bytes) : (PageItem.mount id).render ++ rest =
    lt :: (utf8 "div" ++ ((mountAttribute id).text ++ gt :: rest)) := by
  have start : utf8 "<div id=\"" = lt :: (utf8 "div" ++ space :: (utf8 "id" ++ [equals, quote])) :=
    rfl
  have ending : utf8 "\">" = [quote, gt] := rfl
  simp [PageItem.render, mountAttribute, PrintedAttribute.text, start, ending]

theorem readable_mountAttribute (id : Bytes) : (mountAttribute id).IsReadable := by
  have plain : isPlainName (utf8 "id") = true := rfl
  refine ⟨plain, ?_⟩
  rintro v ⟨⟩
  exact (replaced_escape id).not_mem (by simp [escapeRules_eq]) (by simp +decide)

/-- The mount element is read as a start tag with the one attribute. -/
theorem firstToken_mount (id rest : Bytes) :
    firstToken none ((PageItem.mount id).render ++ rest) =
      (.startTag (PageItem.mount id).render ⟨⟨[(utf8 "id", escape id)], false⟩, utf8 "div"⟩,
        rest) := by
  have follows : Follows ((mountAttribute id).text ++ gt :: rest) := .key _ rfl
  obtain ⟨name, after⟩ := split_name (rfl : isPlainName (utf8 "div") = true) follows
  have close : tagEndSpan? false (gt :: rest) = some (⟨[], false⟩, rest) := by
    rw [tagEndSpan?_eq]
    rfl
  have span : tagSpan? (utf8 "div" ++ ((mountAttribute id).text ++ gt :: rest)) =
      some (⟨⟨[(utf8 "id", escape id)], false⟩, utf8 "div"⟩, rest) := by
    rw [tagSpan?, name, after,
      PrintedAttribute.tagEndSpan?_text (readable_mountAttribute id) (.close rest), close]
    rfl
  have whole := consumed_front (PageItem.mount id).render rest
  rw [render_mount] at whole ⊢
  rw [firstToken_markup rfl]
  change startTagToken _ (utf8 "div" ++ _) = _
  rw [startTagToken, span]
  simp only [whole]

theorem Token.id?_mount (id rest : Bytes) :
    (firstToken none ((PageItem.mount id).render ++ rest)).1.id? = some id := by
  rw [firstToken_mount]
  simp [Token.id?, decode_escape]

/-- The quoting of a string between double quotes. -/
def Target.double : Target → Quoting
  | .ruby => .rubyDouble
  | .javascript => .scriptDouble

namespace Quoting
variable {q : Quoting} {k : List Symbol}

theorem read_unfinished {s : List Symbol} (h : q.first? s = none)
    (goes_on : s.head? ≠ some (.byte q.closer)) : q.read s = none := by
  rw [read, if_neg goes_on]
  split
  · rfl
  · rename_i found
    rw [found] at h
    cases h

theorem code?_symbols (s : Bytes) : code? s.symbols = none := by
  rcases s with _ | ⟨a, _ | ⟨b, s⟩⟩ <;> rfl

/-- An interpolation that holds no piece of code is unreadable. -/
theorem read_startsCode {b : UInt8} {s : Bytes} (other : b ≠ backslash) (goes_on : b ≠ q.closer)
    (starts : q.startsCode b s.symbols = true) : q.read (.byte b :: s.symbols) = none :=
  read_unfinished (by simp [first?, other, starts, code?_symbols]) (by simpa using goes_on)

/-- What stands in front of an unreadable end is unreadable. -/
theorem read_cons_eq_none {b : UInt8} {s : Bytes} (other : b ≠ backslash) (nonempty : s ≠ [])
    (h : q.read s.symbols = none) : q.read (.byte b :: s.symbols) = none := by
  by_cases closes : b = q.closer
  · rw [read]
    simp [closes, Bytes.symbols, nonempty]
  · by_cases starts : q.startsCode b s.symbols = true
    · exact read_startsCode other closes starts
    · by_cases refused : q.refuses b = true
      · exact read_unfinished (by simp [first?, other, starts, refused]) (by simpa using closes)
      · rw [read_plain ⟨closes, other, by simpa using refused⟩ (by simpa using starts), h]
        rfl

end Quoting

theorem quoteRules_eq : quoteRules =
    [⟨[backslash], [backslash, backslash]⟩, ⟨[quote], [backslash, quote]⟩,
     ⟨[lt, slash], [lt, backslash, slash]⟩,
     ⟨[lt, bang, dash, dash], [lt, backslash, bang, dash, dash]⟩] := rfl

theorem replaced_quoteRules (id : Bytes) :
    Rule.Replaced quoteRules id (Rule.applyAll quoteRules id) :=
  Rule.replaced_applyAll (by simp [quoteRules_eq]) id

/-- A rule for strings between double quotes is one for ids, or takes something that is not
printable, or takes what opens an interpolation. -/
theorem double_rules (t : Target) : ∀ rule ∈ t.double.rules, rule ∈ quoteRules ∨
    isPrintableAscii rule.pattern = false ∨
    ∃ a ∈ rule.pattern, ∃ b ∈ rule.pattern, t.double.joins a b = true ∧ rule.pattern = [a, b] := by
  rw [quoteRules_eq]
  cases t <;> decide

section Quoted
variable {t : Target} {id : Bytes} (printable : isPrintableAscii id = true)
include printable

theorem isPrintableAscii_inside {s : Bytes} (h : s <:+: id) : isPrintableAscii s = true :=
  List.all_eq_true.mpr fun b mem => List.all_eq_true.mp printable b (h.subset mem)

theorem not_mem_of_isPrintableAscii {b : UInt8} (control : isPrintableAscii [b] = false) :
    b ∉ id := by
  intro mem
  rw [isPrintableAscii_inside printable ((List.singleton_infix_iff _ _).mpr mem)] at control
  cases control

theorem readLiteral_quoteId_of_plain (nonempty : id ≠ [])
    (plain : ∀ a b, t.double.joins a b = true → ¬[a, b] <:+: id) :
    t.readLiteral (quoteId id).symbols = some [.literal id] := by
  have quoting : t.quoting? quote = some t.double := by cases t <;> rfl
  have closer : t.double.closer = quote := by cases t <;> rfl
  have subset : quoteRules ⊆ t.double.rules := by cases t <;> simp +decide
  -- the further rules of the language have nothing to do in such an id
  have replaced : Rule.Replaced t.double.rules id (Rule.applyAll quoteRules id) := by
    refine (replaced_quoteRules id).widen subset fun rule mem other occurs => ?_
    rcases double_rules t rule mem with old | control | ⟨a, -, b, -, joins, pattern⟩
    · exact other old
    · rw [isPrintableAscii_inside printable occurs] at control
      cases control
    · exact plain a b joins (pattern ▸ occurs)
  have accepted : ∀ c ∈ id, t.double.refuses c = true → ∃ rule ∈ t.double.rules, rule.pattern = [c] := by
    intro c mem refuses
    rcases Quoting.lineEnd_of_refuses refuses with rfl | rfl <;>
      exact absurd mem (not_mem_of_isPrintableAscii printable rfl)
  have ends : ∀ a b k, id.getLast? = some a → [Symbol.byte quote] = .byte b :: k →
      t.double.joins a b = false := by
    rintro a b k - ⟨⟩
    rw [← closer]
    exact t.double.joins_closer a
  rw [quoteId, List.cons_append, symbols_cons, symbols_append, Target.readLiteral, quoting]
  rw [Option.bind_some]
  change t.double.read (_ ++ [Symbol.byte quote]) = _
  rw [t.double.writes_rules.read_replaced replaced accepted ends, ← closer, Quoting.read_closer]
  obtain ⟨c, id, rfl⟩ := List.exists_cons_of_ne_nil nonempty
  rfl

end Quoted

/-- A byte that starts no pattern is kept. -/
theorem Rule.Replaced.kept {rules : List Rule} {b : UInt8} {s t : Bytes}
    (h : Replaced rules (b :: s) t) (nonempty : ∀ rule ∈ rules, rule.pattern ≠ [])
    (free : ∀ rule ∈ rules, rule.pattern.head? ≠ some b) : ∃ t', t = b :: t' := by
  generalize whole : b :: s = u at h
  cases h with
  | nil => cases whole
  | keep unruled rest =>
    cases whole
    exact ⟨_, rfl⟩
  | @apply rule s t mem rest =>
    obtain ⟨a, pattern, eq⟩ := List.exists_cons_of_ne_nil (nonempty rule mem)
    rw [eq] at whole
    cases whole
    exact absurd (by rw [eq]; rfl) (free rule mem)

/-- What opens an interpolation in an id opens one in the quoted id. -/
theorem read_interpolated {s t : Bytes} (h : Rule.Replaced quoteRules s t) {b : UInt8}
    (opens : Quoting.rubyDouble.joins sharp b = true) (occurs : [sharp, b] <:+: s) :
    Quoting.rubyDouble.read (t ++ [quote]).symbols = none := by
  induction h with
  | nil => simp at occurs
  | @keep c s t unruled rest ih =>
    have other : c ≠ backslash := by
      rintro rfl
      exact unruled ⟨[backslash], [backslash, backslash]⟩ List.mem_cons_self ⟨s, rfl⟩
    rcases List.infix_cons_iff.mp occurs with here | later
    · obtain ⟨rfl, s', rfl⟩ := List.cons_prefix_cons.mp here
      have free : ∀ rule ∈ quoteRules, rule.pattern.head? ≠ some b := by
        simp only [Quoting.joins, Bool.and_eq_true, Bool.or_eq_true, beq_iff_eq] at opens
        obtain ⟨-, (rfl | rfl) | rfl⟩ := opens <;> simp +decide
      obtain ⟨t', rfl⟩ := rest.kept (by simp [quoteRules_eq]) free
      exact Quoting.read_startsCode other (by simp +decide) opens
    · exact Quoting.read_cons_eq_none other (by simp) (ih later)
  | @apply rule s t mem rest ih =>
    have spelled : ∀ rule ∈ quoteRules,
        Quoting.rubyDouble.spelled? rule.output = some rule.pattern := by
      simp +decide
    have absent : ∀ rule ∈ quoteRules, sharp ∉ rule.pattern := by simp +decide
    have later : [sharp, b] <:+: s := by
      by_contra avoids
      exact (sealed_of_not_mem rfl (absent rule mem)).append_avoids avoids (by simp) occurs
    rw [List.append_assoc, symbols_append, Quoting.read_spelled (spelled rule mem), ih later]
    rfl

/-- The text holds what opens an interpolation in Ruby. -/
def Interpolates (s : Bytes) : Prop := ∃ b ∈ [lbrace, 0x40, 0x24], [sharp, b] <:+: s

instance (s : Bytes) : Decidable (Interpolates s) :=
  List.decidableBEx (fun b => [sharp, b] <:+: s) [lbrace, 0x40, 0x24]

theorem joins_rubyDouble {a b : UInt8} :
    Quoting.rubyDouble.joins a b = true ↔ a = sharp ∧ b ∈ [lbrace, 0x40, 0x24] := by
  simp [Quoting.joins, or_assoc]

/-- A quoted id is a constant with the id as its value, unless it is interpolated. -/
theorem readLiteral_quoteId (t : Target) {id : Bytes} (printable : isPrintableAscii id = true)
    (nonempty : id ≠ []) :
    t.readLiteral (quoteId id).symbols = some [.literal id] ↔
      t = .javascript ∨ ¬Interpolates id := by
  cases t with
  | javascript => simpa using readLiteral_quoteId_of_plain printable nonempty (by simp [Target.double, Quoting.joins])
  | ruby =>
    simp only [reduceCtorEq, false_or]
    refine ⟨?_, fun plain => ?_⟩
    · rintro read ⟨b, mem, occurs⟩
      have replaced := replaced_quoteRules id
      have unread := read_interpolated replaced (joins_rubyDouble.mpr ⟨rfl, mem⟩) occurs
      change Quoting.rubyDouble.read (Rule.applyAll quoteRules id ++ [quote]).symbols = _ at read
      rw [unread] at read
      cases read
    · refine readLiteral_quoteId_of_plain printable nonempty fun a b joins occurs => plain ?_
      obtain ⟨rfl, mem⟩ := joins_rubyDouble.mp joins
      exact ⟨b, mem, occurs⟩

/-- The programs are the same but for an id, which each of them passes to `getElementById` as a
quoted string. -/
def LooksUp (program : Bytes → Bytes) : Prop :=
  ∃ before after, utf8 ".getElementById(" <:+ before ∧ utf8 ")" <+: after ∧
    ∀ id, isPrintableAscii id = true → program id = before ++ quoteId id ++ after

theorem not_mem_quoteId_of_not_mem {id : Bytes} {b : UInt8} (absent : b ∉ id)
    (ending : b = lf ∨ b = cr) : b ∉ quoteId id := by
  have blunt : ∀ rule ∈ quoteRules, rule.Blunts [b] := by
    rw [quoteRules_eq]
    rcases ending with rfl | rfl <;> decide
  have avoids := (replaced_quoteRules id).avoids blunt (by simp)
    (.inr fun inside => absent ((List.singleton_infix_iff _ _).mp inside))
  rw [Avoids, List.singleton_infix_iff] at avoids
  have unlike : b ≠ quote := by rcases ending with rfl | rfl <;> simp +decide
  simp [quoteId, unlike, avoids]

theorem not_mem_quoteId {id : Bytes} (printable : isPrintableAscii id = true) {b : UInt8}
    (ending : b = lf ∨ b = cr) : b ∉ quoteId id := by
  refine not_mem_quoteId_of_not_mem (not_mem_of_isPrintableAscii printable ?_) ending
  rcases ending with rfl | rfl <;> rfl

theorem lineEnd_not_mem_call {b : UInt8} (ending : b = lf ∨ b = cr) :
    b ∉ utf8 ".getElementById(" ∧ b ∉ utf8 ")" := by
  rcases ending with rfl | rfl <;> simp +decide

namespace LooksUp
variable {program : Bytes → Bytes}

theorem between (h : LooksUp program) (lead trail : Bytes) :
    LooksUp fun id => lead ++ program id ++ trail := by
  obtain ⟨before, after, call, close, whole⟩ := h
  refine ⟨lead ++ before, after ++ trail, call.trans (List.suffix_append _ _),
    close.trans (List.prefix_append _ _), fun id printable => ?_⟩
  simp only [whole id printable, List.append_assoc]

/-- The line that looks the id up, and lines below it. -/
theorem of_line (lead : Bytes) {trail : Bytes} (close : utf8 ")" <+: trail) (below : List Bytes) :
    LooksUp fun id =>
      textLines ((lead ++ utf8 ".getElementById(" ++ quoteId id ++ trail) :: below) := by
  refine ⟨lead ++ utf8 ".getElementById(", trail ++ below.flatMap ([lf] ++ ·),
    List.suffix_append _ _, close.trans (List.prefix_append _ _), fun id _ => ?_⟩
  simp only [textLines, join_cons, List.append_assoc]

theorem below_line {line : Bytes → Bytes} {below : Bytes → List Bytes}
    (h : LooksUp fun id => textLines (line id :: below id)) (first : Bytes) :
    LooksUp fun id => textLines (first :: line id :: below id) := by
  have whole (id : Bytes) : textLines (first :: line id :: below id) =
      first ++ [lf] ++ textLines (line id :: below id) ++ [] := by
    simp [textLines, join_cons]
  simp only [whole]
  exact h.between _ _

theorem indentLines (h : LooksUp program) (n : Nat) :
    LooksUp fun id => indentLines n (program id) := by
  obtain ⟨before, after, ⟨front, rfl⟩, ⟨back, rfl⟩, whole⟩ := h
  obtain ⟨call, close⟩ := lineEnd_not_mem_call (.inl rfl : lf = lf ∨ lf = cr)
  refine ⟨indentFrom n true (front ++ utf8 ".getElementById("),
    indentFrom n false (utf8 ")" ++ back), suffix_indentFrom call front, ?_, fun id printable => ?_⟩
  · rw [indentFrom_inside close]
    exact List.prefix_append _ _
  · dsimp only
    rw [whole id printable, indentLines_eq, List.append_assoc, indentFrom_append (by simp +decide) call,
      indentFrom_inside (not_mem_quoteId printable (.inl rfl)), List.append_assoc]

theorem unifyLines (h : LooksUp program) : LooksUp fun id => unifyLines (program id) := by
  obtain ⟨before, after, ⟨front, rfl⟩, ⟨back, rfl⟩, whole⟩ := h
  obtain ⟨call, close⟩ := lineEnd_not_mem_call (.inr rfl : cr = lf ∨ cr = cr)
  refine ⟨Markup.unifyLines (front ++ utf8 ".getElementById("), Markup.unifyLines (utf8 ")" ++ back),
    ?_, ?_, fun id printable => ?_⟩
  · rw [unifyLines_append (by simp +decide), unifyLines_of_not_mem call]
    exact List.suffix_append _ _
  · rw [unifyLines_inside close]
    exact List.prefix_append _ _
  · dsimp only
    rw [whole id printable, List.append_assoc, unifyLines_append (by simp +decide [quoteId]),
      unifyLines_inside (not_mem_quoteId printable (.inr rfl)), List.append_assoc]

theorem inside (h : LooksUp program) {id : Bytes} (printable : isPrintableAscii id = true) :
    utf8 ".getElementById(" ++ quoteId id ++ utf8 ")" <:+: program id := by
  obtain ⟨before, after, ⟨front, rfl⟩, ⟨back, rfl⟩, whole⟩ := h
  refine ⟨front, back, ?_⟩
  simp only [whole id printable, List.append_assoc]

end LooksUp

theorem looksUp_classText (d : PageData) (t : Target) :
    LooksUp fun id => ({ d with rootId := id } : PageData).classText t := by
  cases t with
  | ruby =>
    dsimp only [PageData.classText, PageData.rubyClass]
    iterate 16 refine .below_line ?_ _
    exact .of_line _ List.prefix_rfl _
  | javascript =>
    dsimp only [PageData.classText, PageData.javascriptClass]
    iterate 6 refine .below_line ?_ _
    exact .of_line _ ⟨utf8 ";", rfl⟩ _

/-- The text of a string that holds no code. -/
def constant? : List Fragment → Option Bytes
  | [] => some []
  | [.literal text] => some text
  | _ => none

/-- The program that the script of a page runs: the script itself, or what the string between
backticks in it stands for, in which a line ends in a line feed. -/
def PageKind.program? (kind : PageKind) (script : Bytes) : Option Bytes :=
  match kind with
  | .umd =>
    let written := dropWhileRight (· != backtick) (script.dropWhile (· != backtick))
    (Target.javascript.readLiteral (unifyLines written).symbols).bind constant?
  | _ => some script

theorem writes_backtickRules : Quoting.scriptTemplate.Writes backtickRules := by
  refine ⟨by decide, by decide, by decide, by decide, fun a b joins => ?_, by decide⟩
  simp only [Quoting.joins, Bool.and_eq_true, beq_iff_eq] at joins
  obtain ⟨rfl, rfl⟩ := joins
  decide

theorem backtickRules_eq : backtickRules =
    [⟨[backslash], [backslash, backslash]⟩, ⟨[backtick], [backslash, backtick]⟩,
     ⟨[0x24, lbrace], [backslash, 0x24, lbrace]⟩] := rfl

theorem inline_backtickRules : ∀ rule ∈ backtickRules, rule.Inline := by
  rw [backtickRules_eq]
  decide

/-- The program of a `umd` page, before it is put between backticks. -/
def PageData.umdSource (d : PageData) : Bytes :=
  utf8 "\n        require 'js'\n\n" ++ DomTemplate.indentLines 8 d.rubyClass ++ utf8 "\n      "

theorem replaced_umdProgram (d : PageData) :
    Rule.Replaced backtickRules d.umdSource d.umdProgram := by
  have nonempty : ∀ rule ∈ backtickRules, rule.pattern ≠ [] := by simp [backtickRules_eq]
  have fixed : Rule.applyAll backtickRules (utf8 "\n        require 'js'\n\n") =
        utf8 "\n        require 'js'\n\n" ∧
      Rule.applyAll backtickRules (utf8 "\n      ") = utf8 "\n      " := by decide
  have lead := Rule.replaced_applyAll nonempty (utf8 "\n        require 'js'\n\n")
  have trail := Rule.replaced_applyAll nonempty (utf8 "\n      ")
  rw [fixed.1] at lead
  rw [fixed.2] at trail
  have code := (Rule.replaced_applyAll nonempty d.rubyClass).indentFrom inline_backtickRules 8 true
  rw [PageData.umdSource, PageData.umdProgram, indentLines_eq, indentLines_eq]
  refine (lead.append code ?_).append trail ?_
  · rintro rule mem b ⟨⟩
    exact (inline_backtickRules rule mem).reads.2.2
  · rintro rule mem b ⟨⟩
    exact (inline_backtickRules rule mem).reads.1

theorem readLiteral_template {s t : Bytes} (h : Rule.Replaced backtickRules s t) (nonempty : s ≠ [])
    (lines : cr ∉ s) :
    Target.javascript.readLiteral (symbols (backtick :: t ++ [backtick])) = some [.literal s] := by
  have accepted : ∀ c ∈ s, Quoting.scriptTemplate.refuses c = true →
      ∃ rule ∈ backtickRules, rule.pattern = [c] := by
    intro c mem refused
    cases eq_of_beq refused
    exact absurd mem lines
  change Quoting.scriptTemplate.read (symbols (t ++ [backtick])) = _
  rw [symbols_append]
  change Quoting.scriptTemplate.read (t.symbols ++ [.byte backtick]) = _
  rw [writes_backtickRules.read_replaced h accepted (by
    rintro a b k - ⟨⟩
    exact Quoting.scriptTemplate.joins_closer a)]
  obtain ⟨c, s, rfl⟩ := List.exists_cons_of_ne_nil nonempty
  exact congrArg _ Quoting.scriptTemplate.read_closer

theorem dropWhileRight_append_stop {p : UInt8 → Bool} {b : UInt8} (s : Bytes) {t : Bytes}
    (dropped : ∀ c ∈ t, p c = true) (stop : p b = false) :
    dropWhileRight p (s ++ b :: t) = s ++ [b] := by
  have turned : (s ++ b :: t).reverse = t.reverse ++ b :: s.reverse := by simp
  rw [dropWhileRight, turned, dropWhile_append_stop (by simpa using dropped) stop]
  simp

theorem program?_umd (d : PageData) :
    PageKind.umd.program? (PageData.umdPrelude ++ [backtick] ++ d.umdProgram ++ [backtick] ++
      PageData.umdEnd) = some (unifyLines d.umdSource) := by
  have before : ∀ c ∈ PageData.umdPrelude, (c != backtick) = true := by
    intro c mem
    rw [bne_iff_ne]
    rintro rfl
    exact not_mem_umdPrelude (.inr rfl) mem
  have after : ∀ c ∈ PageData.umdEnd, (c != backtick) = true := by
    rw [PageData.umdEnd, utf8_ofList]
    exact List.all_eq_true.mp (by decide)
  have whole : PageData.umdPrelude ++ [backtick] ++ d.umdProgram ++ [backtick] ++ PageData.umdEnd =
      PageData.umdPrelude ++ backtick :: (d.umdProgram ++ backtick :: PageData.umdEnd) := by simp
  have replaced := (replaced_umdProgram d).unifyLines inline_backtickRules
  have written : unifyLines (backtick :: d.umdProgram ++ [backtick]) =
      backtick :: unifyLines d.umdProgram ++ [backtick] := by
    rw [unifyLines_append (by simp +decide)]
    rfl
  rw [PageKind.program?, whole, dropWhile_append_stop before rfl, ← List.cons_append,
    dropWhileRight_append_stop _ after rfl, written,
    readLiteral_template replaced (List.cons_ne_nil lf _) (cr_not_mem_unifyLines _)]
  rfl

namespace PageItem

def script? : PageItem → Option Bytes
  | script text => some text
  | markup _ | gap _ | mount _ => none

def mount? : PageItem → Option Bytes
  | mount id => some id
  | markup _ | gap _ | script _ => none

end PageItem

/-- A page with one mount element and one script, which looks the element's id up. -/
theorem exists_program {kind : PageKind} {target : Target} (runs : kind.language? = some target)
    (d : PageData) :
    ∃ program, LooksUp program ∧ ∀ id, ∃ items script,
      (∀ data : PageData, data.withDefaults = { d with rootId := id } →
        Page.make kind target data = .ok (.html items)) ∧
      items.filterMap PageItem.mount? = [id] ∧ items.filterMap PageItem.script? = [script] ∧
      kind.program? script = some (program id) := by
  have code := looksUp_classText d target
  cases kind with
  | bare | viewModel => cases runs
  | iife =>
    cases runs
    refine ⟨_, (code.indentLines 6).between (utf8 "\n      require 'js'\n\n") (utf8 "\n    "),
      fun id => ⟨({ d with rootId := id } : PageData).iifeItems, _, ?_, rfl, rfl, rfl⟩⟩
    intro data same
    rw [← same]
    rfl
  | umd =>
    cases runs
    refine ⟨_, ((code.indentLines 8).between (utf8 "\n        require 'js'\n\n")
      (utf8 "\n      ")).unifyLines,
      fun id => ⟨({ d with rootId := id } : PageData).umdItems, _, ?_, rfl, rfl, program?_umd _⟩⟩
    intro data same
    rw [← same]
    rfl
  | moduleScript =>
    cases runs
    refine ⟨_, (code.indentLines 6).between (utf8 "\n") (utf8 "\n    "),
      fun id => ⟨({ d with rootId := id } : PageData).moduleItems, _, ?_, rfl, rfl, rfl⟩⟩
    intro data same
    rw [← same]
    rfl

theorem rootId_withDefaults {d : PageData} (printable : isPrintableAscii d.rootId = true) :
    isPrintableAscii d.withDefaults.rootId = true ∧ d.withDefaults.rootId ≠ [] := by
  rw [PageData.withDefaults]
  dsimp only
  split
  · exact ⟨rfl, List.cons_ne_nil _ _⟩
  · rename_i given
    exact ⟨printable, by simpa using given⟩

/-- The page looks up the element that it declares, but for interpolations. Whatever the id is, the
one tag of the mount element is read as an element with that id. The one script of the page runs a
program that depends on the id only in a string that it passes to `getElementById`. In the language of
the program that string is a constant with the id as its value, except in Ruby where the id opens an
interpolation. -/
theorem Page.mount_looked_up {kind : PageKind} {target : Target}
    (runs : kind.language? = some target) (data : PageData) :
    ∃ program, LooksUp program ∧ ∀ rootId, isPrintableAscii rootId = true →
      let id := ({ data with rootId := rootId } : PageData).withDefaults.rootId
      ∃ items script,
        Page.make kind target { data with rootId := rootId } = .ok (.html items) ∧
        items.filterMap PageItem.mount? = [id] ∧
        (∀ rest, (firstToken none ((PageItem.mount id).render ++ rest)).1.id? = some id) ∧
        items.filterMap PageItem.script? = [script] ∧
        kind.program? script = some (program id) ∧
        (target.readLiteral (quoteId id).symbols = some [.literal id] ↔
          target = .javascript ∨ ¬Interpolates id) := by
  obtain ⟨program, looksUp, pages⟩ := exists_program runs data.withDefaults
  refine ⟨program, looksUp, fun rootId printable => ?_⟩
  intro id
  obtain ⟨items, script, made, mount, text, runs'⟩ := pages id
  obtain ⟨shown, nonempty⟩ := rootId_withDefaults (d := { data with rootId := rootId }) printable
  exact ⟨items, script, made _ rfl, mount, Token.id?_mount id, text, runs',
    readLiteral_quoteId target shown nonempty⟩

/-- An id of signs that each layer of a page escapes. -/
theorem Page.mount_looked_up_signs :
    let id := utf8 "a\"`$\x7bb\x7d</\\#"
    PageKind.umd.language? = some .ruby ∧ isPrintableAscii id = true ∧
    quoteId id = utf8 "\"a\\\"`$\x7bb\x7d<\\/\\\\#\"" ∧
    Target.ruby.readLiteral (quoteId id).symbols = some [.literal id] ∧
    ∃ items script program, Page.make .umd .ruby ⟨[], id, [], [], utf8 "x"⟩ = .ok (.html items) ∧
      items.filterMap PageItem.script? = [script] ∧ PageKind.umd.program? script = some program ∧
      utf8 ".getElementById(" ++ quoteId id ++ utf8 ")" <:+: program := by
  intro id
  have printable : isPrintableAscii id = true := by decide
  have plain : ¬Interpolates id := by decide
  obtain ⟨program, looksUp, pages⟩ := Page.mount_looked_up
    (rfl : PageKind.umd.language? = some .ruby) ⟨[], [], [], [], utf8 "x"⟩
  obtain ⟨items, script, made, -, -, text, runs, read⟩ := pages id printable
  exact ⟨rfl, printable, by decide, read.mpr (.inr plain), items, script, _, made, text, runs,
    looksUp.inside printable⟩

/-- An id that is code in a Ruby page: what is looked up is the value of the code. -/
theorem Page.mount_interpolated :
    let id := utf8 "#\x7bx\x7d"
    let written :=
      [.byte quote, .byte sharp, .byte lbrace, .code (utf8 "x"), .byte rbrace, .byte quote]
    isPrintableAscii id = true ∧
    (∃ items script, Page.make .iife .ruby ⟨[], id, [], [], []⟩ = .ok (.html items) ∧
      items.filterMap PageItem.mount? = [id] ∧ items.filterMap PageItem.script? = [script] ∧
      utf8 ".getElementById(" ++ quoteId id ++ utf8 ")" <:+: script) ∧
    written.flatMap Symbol.text = quoteId id ∧
    Target.ruby.readLiteral written = some [.code (utf8 "x")] ∧
    Target.ruby.readLiteral (quoteId id).symbols ≠ some [.literal id] := by
  intro id written
  have printable : isPrintableAscii id = true := by decide
  obtain ⟨program, looksUp, pages⟩ := exists_program
    (rfl : PageKind.iife.language? = some .ruby) (PageData.withDefaults ⟨[], [], [], [], []⟩)
  obtain ⟨items, script, made, mount, text, runs⟩ := pages id
  cases runs
  have code : Quoting.rubyDouble.read written.tail = some [.code (utf8 "x")] := by
    change Quoting.rubyDouble.read (.byte sharp :: .byte lbrace :: .code (utf8 "x") ::
      .byte rbrace :: [.byte quote]) = _
    rw [Quoting.read_code rfl (by decide)]
    exact congrArg _ Quoting.rubyDouble.read_closer
  refine ⟨printable, ⟨items, program id, made _ rfl, mount, text, looksUp.inside printable⟩,
    by decide, code, ?_⟩
  rw [Ne, readLiteral_quoteId _ printable (List.cons_ne_nil _ _)]
  decide

end DomTemplate
