import DomTemplate.DomOp
import DomTemplate.Proofs.Replacement
import Mathlib.Data.List.Chain

/-! String literals read back. A literal is a row of symbols: bytes, and pieces of code that a
reader takes whole. The reader follows the rules that the output languages have for quoted
strings, as far as it goes: an escape that means different things in them, or nothing, is
refused, and so is an interpolation that holds no piece of code. Whatever fragments a literal was
written for, they are what is read. -/

namespace DomTemplate
open Ascii

/-- A symbol of a written literal. -/
inductive Symbol where
  | byte (b : UInt8)
  | code (text : Bytes)
  deriving DecidableEq, Repr

def Symbol.text : Symbol → Bytes
  | byte b => [b]
  | code text => text

namespace Bytes

def symbols (s : Bytes) : List Symbol := s.map .byte

theorem symbols_cons (b : UInt8) (s : Bytes) : symbols (b :: s) = .byte b :: s.symbols := rfl

theorem symbols_append (s t : Bytes) : symbols (s ++ t) = s.symbols ++ t.symbols := List.map_append

end Bytes

inductive Quoting where
  | rubyDouble
  | rubySingle
  | scriptDouble
  | scriptSingle
  /-- Between backticks. -/
  | scriptTemplate
  deriving DecidableEq, Repr

/-- Text in front of fragments, joined with a literal that comes first. -/
def glue (text : Bytes) : List Fragment → List Fragment
  | .literal first :: rest => .literal (text ++ first) :: rest
  | fs => if text.isEmpty then fs else .literal text :: fs

def join : Fragment → List Fragment → List Fragment
  | .literal text => glue text
  | .code text => (.code text :: ·)

namespace Quoting

def closer : Quoting → UInt8
  | rubyDouble | scriptDouble => quote
  | rubySingle | scriptSingle => apostrophe
  | scriptTemplate => backtick

/-- A byte that is kept when it stands after a backslash: a graphic sign of ASCII. -/
def isSign (b : UInt8) : Bool := 0x21 ≤ b && b ≤ 0x7E && !isAlphanumeric b

/-- What a backslash and the byte after it stand for. -/
def escaped? (q : Quoting) (c : UInt8) : Option Bytes :=
  if q = rubySingle then
    if c = backslash ∨ c = apostrophe then some [c]
    else if c = cr then none
    else some [backslash, c]
  else if c = 0x6E then some [lf]
  else if c = 0x72 then some [cr]
  else if c = 0x74 then some [tab]
  else if isSign c then some [c]
  else none

/-- The character with the four hexadecimal digits that come first, and what follows them. -/
def ofHex? : List Symbol → Option (Bytes × List Symbol)
  | .byte w :: .byte x :: .byte y :: .byte z :: rest =>
    ([w, x, y, z].mapM hexValue?).bind fun digits =>
      let r := digits.foldl (fun n d => 16 * n + d) 0
      if CodePoint.isScalar r then some (CodePoint.encode r, rest) else none
  | _ => none

/-- The two bytes open an interpolation: `#\x7b`, `#@` and `#$` in one language, `$\x7b` in the
other. -/
def joins (q : Quoting) (a b : UInt8) : Bool :=
  match q with
  | rubyDouble => a == sharp && (b == lbrace || b == 0x40 || b == 0x24)
  | scriptTemplate => a == 0x24 && b == lbrace
  | _ => false

def startsCode (q : Quoting) (a : UInt8) (rest : List Symbol) : Bool :=
  match rest with
  | .byte b :: _ => q.joins a b
  | _ => false

/-- The byte may not stand unescaped, or is not taken as it stands: a line end. -/
def refuses (q : Quoting) (b : UInt8) : Bool :=
  match q with
  | scriptDouble | scriptSingle => b == lf || b == cr
  | _ => b == cr

/-- What an escape stands for, read after its backslash, and what follows it. -/
def escape? (q : Quoting) : List Symbol → Option (Bytes × List Symbol)
  | .byte c :: rest =>
    match q.escaped? c with
    | some text => some (text, rest)
    | none => if c = 0x75 then ofHex? rest else none
  | _ => none

/-- The code of an interpolation, read after the first byte of its opener. -/
def code? : List Symbol → Option (Bytes × List Symbol)
  | .byte l :: .code text :: .byte r :: rest =>
    if l = lbrace ∧ r = rbrace then some (text, rest) else none
  | _ => none

/-- The first fragment of a string, which need not be all of a literal, and what follows it. -/
def first? (q : Quoting) : List Symbol → Option (Fragment × List Symbol)
  | .byte b :: rest =>
    if b = backslash then (q.escape? rest).map fun (text, after) => (.literal text, after)
    else if q.startsCode b rest then (code? rest).map fun (text, after) => (.code text, after)
    else if q.refuses b then none
    else some (.literal [b], rest)
  | _ => none

theorem length_ofHex?_lt {s after : List Symbol} {text : Bytes}
    (h : ofHex? s = some (text, after)) : after.length < s.length := by
  unfold ofHex? at h
  split at h
  · obtain ⟨digits, -, found⟩ := Option.bind_eq_some_iff.mp h
    rw [Option.ite_none_right_eq_some] at found
    obtain ⟨-, same⟩ := found
    cases same
    simp only [List.length_cons]
    omega
  · cases h

theorem length_escape?_lt {q : Quoting} {s after : List Symbol} {text : Bytes}
    (h : q.escape? s = some (text, after)) : after.length < s.length := by
  unfold escape? at h
  split at h
  · rename_i c rest
    split at h
    · cases h
      simp
    · rw [Option.ite_none_right_eq_some] at h
      exact Nat.lt_succ_of_lt (length_ofHex?_lt h.2)
  · cases h

theorem length_code?_lt {s after : List Symbol} {text : Bytes}
    (h : code? s = some (text, after)) : after.length < s.length := by
  unfold code? at h
  split at h
  · rw [Option.ite_none_right_eq_some] at h
    obtain ⟨-, same⟩ := h
    cases same
    simp only [List.length_cons]
    omega
  · cases h

theorem length_first?_lt {q : Quoting} {s after : List Symbol} {f : Fragment}
    (h : q.first? s = some (f, after)) : after.length < s.length := by
  unfold first? at h
  split at h
  · rename_i b rest
    split at h
    · obtain ⟨⟨text, tail⟩, found, same⟩ := Option.map_eq_some_iff.mp h
      cases same
      exact Nat.lt_succ_of_lt (length_escape?_lt found)
    split at h
    · obtain ⟨⟨text, tail⟩, found, same⟩ := Option.map_eq_some_iff.mp h
      cases same
      exact Nat.lt_succ_of_lt (length_code?_lt found)
    split at h
    · cases h
    · cases h
      simp
  · cases h

/-- The fragments of a string after its opening quote; the closing quote must come last. -/
def read (q : Quoting) (s : List Symbol) : Option (List Fragment) :=
  if s.head? = some (.byte q.closer) then if s.tail.isEmpty then some [] else none
  else match h : q.first? s with
    | none => none
    | some (f, after) =>
      have := length_first?_lt h
      (read q after).map (join f)
termination_by s.length

end Quoting

/-- The quoting that an opening quote announces. -/
def Target.quoting? (t : Target) (b : UInt8) : Option Quoting :=
  match t with
  | ruby =>
    if b = quote then some .rubyDouble else if b = apostrophe then some .rubySingle else none
  | javascript =>
    if b = quote then some .scriptDouble
    else if b = apostrophe then some .scriptSingle
    else if b = backtick then some .scriptTemplate
    else none

def Target.readLiteral (t : Target) : List Symbol → Option (List Fragment)
  | .byte b :: rest => (t.quoting? b).bind fun q => q.read rest
  | _ => none

/-- The fragments that show in a literal: those that are not empty text. -/
def shownFragments (fs : List Fragment) : List Fragment := fs.filter (· ≠ .literal [])

theorem glue_nil (fs : List Fragment) : glue [] fs = fs := by
  cases fs with
  | nil => rfl
  | cons f fs => cases f <;> rfl

theorem glue_glue (a b : Bytes) (fs : List Fragment) : glue a (glue b fs) = glue (a ++ b) fs := by
  cases b with
  | nil => rw [glue_nil, List.append_nil]
  | cons c b =>
    cases fs with
    | nil => simp [glue]
    | cons f fs => cases f <;> simp [glue]

theorem map_glue (a b : Bytes) (r : Option (List Fragment)) :
    (r.map (glue b)).map (glue a) = r.map (glue (a ++ b)) := by
  cases r with
  | none => rfl
  | some fs => simp [glue_glue]

theorem Bytes.text_symbols (s : Bytes) : s.symbols.flatMap Symbol.text = s := by
  induction s with
  | nil => rfl
  | cons b s ih => rw [Bytes.symbols_cons, List.flatMap_cons, ih]; rfl

namespace Quoting
variable {q : Quoting} {k : List Symbol}

theorem closer_ne_backslash (q : Quoting) : backslash ≠ q.closer := by
  cases q <;> decide

theorem read_first {s after : List Symbol} {f : Fragment} (h : q.first? s = some (f, after))
    (goes_on : s.head? ≠ some (.byte q.closer)) : q.read s = (q.read after).map (join f) := by
  rw [read, if_neg goes_on]
  split
  · rename_i none
    rw [none] at h
    cases h
  · rename_i found
    rw [found] at h
    cases h
    rfl

theorem read_closer (q : Quoting) : q.read [.byte q.closer] = some [] := by
  rw [read]
  simp

theorem read_plain {b : UInt8} (text : b ≠ q.closer ∧ b ≠ backslash ∧ q.refuses b = false)
    (alone : q.startsCode b k = false) :
    q.read (.byte b :: k) = (q.read k).map (glue [b]) := by
  have first : q.first? (.byte b :: k) = some (.literal [b], k) := by
    simp [first?, text.2.1, alone, text.2.2]
  exact read_first first (by simpa using text.1)

theorem read_escape {text : Bytes} {s : List Symbol} (h : q.escape? s = some (text, k)) :
    q.read (.byte backslash :: s) = (q.read k).map (glue text) := by
  have first : q.first? (.byte backslash :: s) = some (.literal text, k) := by
    simp [first?, h]
  exact read_first first (by simpa using closer_ne_backslash q)

theorem read_code {a : UInt8} {text : Bytes} (opens : q.joins a lbrace = true)
    (opener : a ≠ q.closer ∧ a ≠ backslash) :
    q.read (.byte a :: .byte lbrace :: .code text :: .byte rbrace :: k) =
      (q.read k).map (.code text :: ·) := by
  have first : q.first? (.byte a :: .byte lbrace :: .code text :: .byte rbrace :: k) =
      some (.code text, k) := by
    simp [first?, opener.2, startsCode, opens, code?]
  exact read_first first (by simpa using opener.1)

/-- The byte is text wherever it stands. -/
def steady (q : Quoting) (b : UInt8) : Bool :=
  b != q.closer && b != backslash && !q.refuses b && !q.joins b lbrace

/-- The text that written bytes stand for, if that does not depend on what follows them. -/
def spelled? (q : Quoting) : Bytes → Option Bytes
  | [] => some []
  | [b] => if q.steady b then some [b] else none
  | b :: c :: rest =>
    if b = backslash then
      match q.escaped? c with
      | some text => (q.spelled? rest).map (text ++ ·)
      | none =>
        match c == 0x75, ofHex? (Bytes.symbols rest) with
        | true, some (text, []) => some text
        | _, _ => none
    else if q.steady b then (q.spelled? (c :: rest)).map (b :: ·)
    else none

/-- Whatever opens an interpolation opens one in front of a brace. -/
theorem joins_of_lbrace {b : UInt8} (h : q.joins b lbrace = false) (a : UInt8) :
    q.joins b a = false := by
  cases q <;> simp_all [joins]

theorem read_steady {b : UInt8} (h : q.steady b = true) (k : List Symbol) :
    q.read (.byte b :: k) = (q.read k).map (glue [b]) := by
  simp only [steady, Bool.and_eq_true, bne_iff_ne, Bool.not_eq_true'] at h
  obtain ⟨⟨⟨closer, escape⟩, refuses⟩, opens⟩ := h
  refine read_plain ⟨closer, escape, refuses⟩ ?_
  cases k with
  | nil => rfl
  | cons symbol k =>
    cases symbol with
    | byte a => exact joins_of_lbrace opens a
    | code text => rfl

theorem ofHex?_append {s after : List Symbol} {text : Bytes} (h : ofHex? s = some (text, after))
    (k : List Symbol) : ofHex? (s ++ k) = some (text, after ++ k) := by
  unfold ofHex? at h
  split at h
  · obtain ⟨digits, value, found⟩ := Option.bind_eq_some_iff.mp h
    rw [Option.ite_none_right_eq_some] at found
    obtain ⟨scalar, same⟩ := found
    cases same
    simp [ofHex?, value, scalar]
  · cases h

theorem read_spelled {s t : Bytes} (h : q.spelled? s = some t) (k : List Symbol) :
    q.read (s.symbols ++ k) = (q.read k).map (glue t) := by
  fun_induction spelled? q s generalizing t with
  | case1 =>
    cases h
    have same : glue [] = id := funext glue_nil
    simp [Bytes.symbols, same]
  | case2 b steady =>
    cases h
    exact read_steady steady k
  | case3 => cases h
  | case4 c rest text escapes ih =>
    obtain ⟨t, spelled, rfl⟩ := Option.map_eq_some_iff.mp h
    have first : q.escape? (.byte c :: (Bytes.symbols rest ++ k)) =
        some (text, Bytes.symbols rest ++ k) := by
      simp [escape?, escapes]
    rw [Bytes.symbols_cons, Bytes.symbols_cons, List.cons_append, List.cons_append,
      read_escape first, ih spelled, map_glue]
  | case5 c rest escapes text hex unicode =>
    cases h
    cases eq_of_beq unicode
    have first : q.escape? (.byte 0x75 :: (Bytes.symbols rest ++ k)) = some (text, k) := by
      simp [escape?, escapes, ofHex?_append hex k]
    rw [Bytes.symbols_cons, Bytes.symbols_cons, List.cons_append, List.cons_append,
      read_escape first]
  | case6 => cases h
  | case7 b c rest escape steady ih =>
    obtain ⟨t, spelled, rfl⟩ := Option.map_eq_some_iff.mp h
    rw [Bytes.symbols_cons, List.cons_append, read_steady steady, ih spelled, map_glue]
    rfl
  | case8 => cases h

/-- The rules write text as the quoting reads it: they take the closing quote, the backslash and
whatever opens an interpolation, and the output of each reads as its pattern. -/
structure Writes (q : Quoting) (rules : List Rule) : Prop where
  nonempty : ∀ rule ∈ rules, rule.pattern ≠ []
  heads : ∀ rule ∈ rules, rule.output.head? = some backslash ∨ rule.output.head? = some lt
  closer : ∃ rule ∈ rules, rule.pattern = [q.closer]
  backslash : ∃ rule ∈ rules, rule.pattern = [backslash]
  opener : ∀ a b, q.joins a b = true → ∃ rule ∈ rules, rule.pattern = [a, b]
  spelled : ∀ rule ∈ rules, q.spelled? rule.output = some rule.pattern

theorem joins_backslash (q : Quoting) (a : UInt8) : q.joins a backslash = false := by
  cases q <;> simp [joins, backslash, lbrace]

theorem joins_lt (q : Quoting) (a : UInt8) : q.joins a lt = false := by
  cases q <;> simp [joins, lt, lbrace]

namespace Writes
variable {rules : List Rule} {c : UInt8} {s t : Bytes}

theorem eq_nil (writes : q.Writes rules) (h : Rule.Replaced rules s []) : s = [] := by
  generalize written : ([] : Bytes) = t at h
  cases h with
  | nil => rfl
  | keep => cases written
  | @apply rule s t mem rest =>
    have output : rule.output = [] := (List.append_eq_nil_iff.mp written.symm).1
    have head := writes.heads rule mem
    simp [output] at head

/-- A byte that is kept joins no byte that is written after it. -/
theorem apart (writes : q.Writes rules) {b : UInt8}
    (unruled : ∀ rule ∈ rules, ¬rule.pattern <+: c :: s) (h : Rule.Replaced rules s (b :: t)) :
    q.joins c b = false := by
  generalize written : b :: t = u at h
  cases h with
  | nil => cases written
  | @keep b s t unruled' rest =>
    cases written
    rw [← Bool.not_eq_true]
    intro joins
    obtain ⟨rule, mem, pattern⟩ := writes.opener _ _ joins
    exact unruled rule mem ⟨s, by rw [pattern]; rfl⟩
  | @apply rule s t mem rest =>
    have head : (rule.output ++ t).head? = some b := by rw [← written]; rfl
    rw [List.head?_append] at head
    rcases writes.heads rule mem with first | first
    · rw [first] at head
      cases head
      exact joins_backslash q c
    · rw [first] at head
      cases head
      exact joins_lt q c

/-- Replaced text reads as the text, unless its last byte joins what follows. -/
theorem read_replaced (writes : q.Writes rules) (h : Rule.Replaced rules s t)
    (lines : ∀ c ∈ s, q.refuses c = true → ∃ rule ∈ rules, rule.pattern = [c])
    (ends : ∀ a b k', s.getLast? = some a → k = .byte b :: k' → q.joins a b = false) :
    q.read (t.symbols ++ k) = (q.read k).map (glue s) := by
  induction h with
  | nil =>
    have same : glue [] = id := funext glue_nil
    simp [Bytes.symbols, same]
  | @keep c s t unruled rest ih =>
    have unlike {b : UInt8} (ruled : ∃ rule ∈ rules, rule.pattern = [b]) : c ≠ b := by
      rintro rfl
      obtain ⟨rule, mem, pattern⟩ := ruled
      exact unruled rule mem ⟨s, by rw [pattern]; rfl⟩
    have accepted : q.refuses c = false := by
      rw [← Bool.not_eq_true]
      exact fun refused => unlike (lines c List.mem_cons_self refused) rfl
    -- the next byte is one that the rules write, or at the end of the text the first of `k`
    have alone : q.startsCode c (t.symbols ++ k) = false := by
      cases t with
      | nil =>
        rw [writes.eq_nil rest] at ends
        cases k with
        | nil => rfl
        | cons symbol k =>
          cases symbol with
          | byte b => exact ends c b k rfl rfl
          | code text => rfl
      | cons b t => exact writes.apart unruled rest
    have after := ih (fun b mem => lines b (List.mem_cons_of_mem _ mem)) (fun a b k' last =>
      ends a b k' (by rw [List.getLast?_cons, last]; rfl))
    rw [Bytes.symbols_cons, List.cons_append,
      read_plain ⟨unlike writes.closer, unlike writes.backslash, accepted⟩ alone, after, map_glue]
    rfl
  | @apply rule s t mem rest ih =>
    have after := ih (fun b mem => lines b (List.mem_append_right _ mem)) (fun a b k' last =>
      ends a b k' (by rw [List.getLast?_append, last]; rfl))
    rw [Bytes.symbols_append, List.append_assoc,
      read_spelled (writes.spelled rule mem), after, map_glue]

end Writes

def rules : Quoting → List Rule
  | rubyDouble => Target.rubyRules
  | scriptDouble => Target.javascriptRules
  | scriptTemplate => Target.templateRules
  | rubySingle | scriptSingle => Target.singleQuoteRules

theorem writes_rules (q : Quoting) : q.Writes q.rules := by
  cases q with
  | rubyDouble =>
    refine ⟨by decide, by decide, by decide, by decide, fun a b joins => ?_, by decide⟩
    simp only [Quoting.joins, Bool.and_eq_true, Bool.or_eq_true, beq_iff_eq] at joins
    obtain ⟨rfl, (rfl | rfl) | rfl⟩ := joins <;> decide
  | scriptTemplate =>
    refine ⟨by decide, by decide, by decide, by decide, fun a b joins => ?_, by decide⟩
    simp only [Quoting.joins, Bool.and_eq_true, beq_iff_eq] at joins
    obtain ⟨rfl, rfl⟩ := joins
    decide
  | rubySingle | scriptDouble | scriptSingle =>
    exact ⟨by decide, by decide, by decide, by decide, fun _ _ joins => Bool.noConfusion joins,
      by decide +kernel⟩

/-- Literals with fragments are written this way. -/
def isDouble : Quoting → Bool
  | rubyDouble | scriptDouble | scriptTemplate => true
  | rubySingle | scriptSingle => false

/-- Outside of single quotes, line ends are escaped. -/
theorem rules_lineEnd (double : q.isDouble = true) {b : UInt8} (ending : b = lf ∨ b = cr) :
    (∃ rule ∈ q.rules, rule.pattern = [b]) ∧ ∀ rule ∈ q.rules, b ∉ rule.output := by
  cases q with
  | rubySingle | scriptSingle => cases double
  | rubyDouble | scriptDouble | scriptTemplate =>
    rcases ending with rfl | rfl <;> exact ⟨by decide, by decide⟩

theorem lineEnd_of_refuses {b : UInt8} (h : q.refuses b = true) : b = lf ∨ b = cr := by
  cases q <;> simp_all [refuses]

/-- The first byte of what opens an interpolation, where there are any. -/
def opener : Quoting → UInt8
  | rubyDouble => sharp
  | _ => 0x24

def symbols (q : Quoting) : Fragment → List Symbol
  | .literal text => (Rule.applyAll q.rules text).symbols
  | .code text => [.byte q.opener, .byte lbrace, .code text, .byte rbrace]

theorem joins_closer (q : Quoting) (a : UInt8) : q.joins a q.closer = false := by
  cases q <;> simp [joins, closer, backtick, quote, lbrace]

theorem joins_opener (q : Quoting) (a : UInt8) : q.joins a q.opener = false := by
  cases q <;> simp [joins, opener, sharp, lbrace]

theorem opener_ne (q : Quoting) : q.opener ≠ q.closer ∧ q.opener ≠ backslash := by
  cases q <;> decide

theorem read_literal (double : q.isDouble = true) (text : Bytes)
    (ends : ∀ a b k', k = .byte b :: k' → q.joins a b = false) :
    q.read (q.symbols (.literal text) ++ k) = (q.read k).map (glue text) := by
  have replaced := Rule.replaced_applyAll q.writes_rules.nonempty text
  refine q.writes_rules.read_replaced replaced (fun c _ refuses => ?_) (fun a b k' _ => ends a b k')
  exact (rules_lineEnd double (lineEnd_of_refuses refuses)).1

/-- Fragments with no two literals in a row are read as they were written. -/
theorem read_fragments (double : q.isDouble = true) {fs : List Fragment}
    (opens : ∀ f ∈ fs, f.isCode = true → q.joins q.opener lbrace = true)
    (merged : fs.IsChain fun f g => f.isCode = true ∨ g.isCode = true) :
    q.read (fs.flatMap q.symbols ++ [.byte q.closer]) = some (shownFragments fs) := by
  induction fs with
  | nil => exact read_closer q
  | cons f fs ih =>
    have rest := ih (fun g mem => opens g (List.mem_cons_of_mem _ mem)) merged.tail
    rw [List.flatMap_cons, List.append_assoc]
    cases f with
    | code text =>
      have joins := opens _ List.mem_cons_self rfl
      simp only [symbols, List.cons_append, List.nil_append]
      rw [read_code joins q.opener_ne, rest]
      simp [shownFragments]
    | literal text =>
      -- behind a literal stands the closing quote or code, and its last byte joins neither
      cases fs with
      | nil =>
        rw [read_literal double text fun a b k' last => by cases last; exact q.joins_closer a, rest]
        cases text <;> rfl
      | cons g fs =>
        cases g with
        | literal other => simp [Fragment.isCode] at merged
        | code other =>
          rw [read_literal double text fun a b k' last => by cases last; exact q.joins_opener a,
            rest]
          cases text <;> rfl

theorem text_symbols (q : Quoting) (f : Fragment) :
    (q.symbols f).flatMap Symbol.text = Target.fragment q.rules [q.opener, lbrace] f := by
  cases f with
  | literal text => exact Bytes.text_symbols _
  | code text => simp [symbols, Target.fragment, Symbol.text]

theorem not_mem_symbols (double : q.isDouble = true) {b : UInt8} (ending : b = lf ∨ b = cr)
    (f : Fragment) : .byte b ∉ q.symbols f := by
  cases f with
  | literal text =>
    obtain ⟨taken, dropped⟩ := rules_lineEnd double ending
    have absent := (Rule.replaced_applyAll q.writes_rules.nonempty text).not_mem taken dropped
    simpa [symbols, Bytes.symbols] using absent
  | code text =>
    rcases ending with rfl | rfl <;> cases q <;>
      simp [symbols, opener, lf, cr, sharp, lbrace, rbrace]

end Quoting

theorem merged_mergeLiterals (fs : List Fragment) :
    (mergeLiterals fs).IsChain fun f g => f.isCode = true ∨ g.isCode = true := by
  induction fs with
  | nil => exact .nil
  | cons f fs ih =>
    cases f with
    | code text => exact List.isChain_cons.mpr ⟨fun _ _ => .inl rfl, ih⟩
    | literal text =>
      rw [mergeLiterals]
      split
      · rename_i other rest merged
        rw [merged, List.isChain_cons] at ih
        exact List.isChain_cons.mpr ih
      · rename_i rest unmerged
        refine List.isChain_cons.mpr ⟨fun g mem => ?_, ih⟩
        cases g with
        | code other => exact .inr rfl
        | literal other =>
          obtain ⟨tail, merged⟩ := List.head?_eq_some_iff.mp mem
          exact (unmerged _ _ merged).elim

namespace Target

def quotingOf (t : Target) (fs : List Fragment) : Quoting :=
  match t with
  | ruby => .rubyDouble
  | javascript => if fs.any Fragment.isCode then .scriptTemplate else .scriptDouble

/-- The symbols of a literal, with the code of each fragment taken whole. -/
def symbols (t : Target) (fs : List Fragment) : List Symbol :=
  let q := t.quotingOf fs
  .byte q.closer :: fs.flatMap q.symbols ++ [.byte q.closer]

theorem quotingOf_isDouble (t : Target) (fs : List Fragment) :
    (t.quotingOf fs).isDouble = true := by
  cases t with
  | ruby => rfl
  | javascript => rw [quotingOf]; split <;> rfl

theorem quoting?_quotingOf (t : Target) (fs : List Fragment) :
    t.quoting? (t.quotingOf fs).closer = some (t.quotingOf fs) := by
  cases t with
  | ruby => rfl
  | javascript => rw [quotingOf]; split <;> rfl

/-- A literal with code is written in a quoting that has interpolations. -/
theorem quotingOf_opens {t : Target} {fs : List Fragment} {f : Fragment} (mem : f ∈ fs)
    (code : f.isCode = true) :
    (t.quotingOf fs).joins (t.quotingOf fs).opener lbrace = true := by
  cases t with
  | ruby => rfl
  | javascript => rw [quotingOf, if_pos (List.any_eq_true.mpr ⟨f, mem, code⟩)]; rfl

theorem readLiteral_symbols (t : Target) {fs : List Fragment}
    (merged : fs.IsChain fun f g => f.isCode = true ∨ g.isCode = true) :
    t.readLiteral (t.symbols fs) = some (shownFragments fs) := by
  rw [symbols, List.cons_append, readLiteral, quoting?_quotingOf]
  exact Quoting.read_fragments (t.quotingOf_isDouble fs) (fun f mem => quotingOf_opens mem) merged

theorem literal_eq (t : Target) (fs : List Fragment) :
    t.literal fs = (t.quotingOf fs).closer ::
      fs.flatMap (fragment (t.quotingOf fs).rules [(t.quotingOf fs).opener, lbrace]) ++
        [(t.quotingOf fs).closer] := by
  cases t with
  | ruby => rfl
  | javascript =>
    rw [literal, quotingOf]
    split
    · rfl
    · rename_i plain
      -- With no code among the fragments it does not matter how code would be opened.
      have same : ∀ f ∈ fs, fragment javascriptRules [] f =
          fragment javascriptRules [0x24, lbrace] f := by
        intro f mem
        cases f with
        | literal text => rfl
        | code text => exact (plain (List.any_eq_true.mpr ⟨_, mem, rfl⟩)).elim
      exact congrArg (quote :: List.flatten · ++ [quote]) (List.map_congr_left same)

theorem text_symbols (t : Target) (fs : List Fragment) :
    (t.symbols fs).flatMap Symbol.text = t.literal fs := by
  have inside : (fs.flatMap (t.quotingOf fs).symbols).flatMap Symbol.text =
      fs.flatMap (fragment (t.quotingOf fs).rules [(t.quotingOf fs).opener, lbrace]) := by
    simp only [List.flatMap_assoc, Quoting.text_symbols]
  rw [literal_eq, symbols, List.cons_append, List.flatMap_cons, List.flatMap_append, inside]
  rfl

theorem not_mem_symbols (t : Target) (fs : List Fragment) {b : UInt8} (ending : b = lf ∨ b = cr) :
    .byte b ∉ t.symbols fs := by
  have unlike : b ≠ (t.quotingOf fs).closer := by
    rcases ending with rfl | rfl <;> cases t.quotingOf fs <;> decide
  simp only [symbols, List.cons_append, List.mem_cons, List.mem_append, List.mem_flatMap,
    List.not_mem_nil, or_false, Symbol.byte.injEq, not_or, not_exists, not_and]
  exact ⟨unlike, fun f _ => Quoting.not_mem_symbols (t.quotingOf_isDouble fs) ending f, unlike⟩

theorem readLiteral_static (t : Target) {s : Bytes} (lines : lf ∉ s ∧ cr ∉ s) :
    t.readLiteral (t.static s).symbols = some (shownFragments [.literal s]) := by
  obtain ⟨q, single, closer, quoting⟩ : ∃ q : Quoting, q.rules = singleQuoteRules ∧
      q.closer = apostrophe ∧ t.quoting? apostrophe = some q := by
    cases t
    · exact ⟨.rubySingle, rfl, rfl, rfl⟩
    · exact ⟨.scriptSingle, rfl, rfl, rfl⟩
  have replaced := Rule.replaced_applyAll q.writes_rules.nonempty s
  have accepted : ∀ c ∈ s, q.refuses c = true → ∃ rule ∈ q.rules, rule.pattern = [c] := by
    intro c mem refuses
    rcases Quoting.lineEnd_of_refuses refuses with rfl | rfl
    · exact (lines.1 mem).elim
    · exact (lines.2 mem).elim
  rw [static, List.cons_append, Bytes.symbols_cons, Bytes.symbols_append, readLiteral, quoting,
    ← single, ← closer, Option.bind_some, q.writes_rules.read_replaced replaced accepted (by
      intro a b k' _ last
      cases last
      exact q.joins_closer a)]
  exact (congrArg _ q.read_closer).trans (by cases s <;> rfl)

/-- Literals mean what they were written for. The symbols of a literal, with the code of each
fragment taken whole, are read as the fragments it was written for, but for empty text, and hold
no raw line end. A static literal is read as its text. -/
theorem literals_read (t : Target) :
    (∀ pieces, let fs := mergeLiterals pieces
      (t.symbols fs).flatMap Symbol.text = t.literal fs ∧
      t.readLiteral (t.symbols fs) = some (shownFragments fs) ∧
      .byte lf ∉ t.symbols fs ∧ .byte cr ∉ t.symbols fs) ∧
    ∀ s, lf ∉ s → cr ∉ s →
      t.readLiteral (t.static s).symbols = some (shownFragments [.literal s]) := by
  refine ⟨fun pieces => ?_, fun s noLf noCr => t.readLiteral_static ⟨noLf, noCr⟩⟩
  exact ⟨t.text_symbols _, t.readLiteral_symbols (merged_mergeLiterals pieces),
    t.not_mem_symbols _ (.inl rfl), t.not_mem_symbols _ (.inr rfl)⟩

/-- A text whose pieces only together open an interpolation, in front of code. -/
theorem literals_read_joined :
    let s := utf8 "it's \\"
    let pieces := [.literal (utf8 "#"), .literal (utf8 "\x7b</\n#"), .code (utf8 "n")]
    lf ∉ s ∧ cr ∉ s ∧ ruby.readLiteral (ruby.static s).symbols = some [.literal s] ∧
    ruby.literal (mergeLiterals pieces) = utf8 "\"\\#\x7b<\\/\\n##\x7bn\x7d\"" ∧
    ruby.readLiteral (ruby.symbols (mergeLiterals pieces)) =
      some [.literal (utf8 "#\x7b</\n#"), .code (utf8 "n")] :=
  ⟨by decide, by decide, (literals_read ruby).2 _ (by decide) (by decide), by decide,
    ((literals_read ruby).1 _).2.1⟩

end Target
end DomTemplate
