import DomTemplate.Pipeline
import DomTemplate.Proofs.Failures
import DomTemplate.Proofs.QuotedTexts

/-! The dump of an intent determines the intent. Its first line starts with a word that tells what
kind of entry it is, and each entry ends where its own text says, so that two intents whose dumps
agree on a common start agree altogether. Quoted texts are read back, and a reference ends with its
line as long as it holds no line feed. -/

namespace DomTemplate
open Ascii

namespace Intent

abbrev rparen : UInt8 := 0x29

/-- What the first line of an entry says. -/
inductive Head where
  | absent | ignore | content | expression | statement | create | container
  | attr (kind : AttrKind)
  deriving DecidableEq

namespace Head

/-- The start of the line, up to the text or the reference in it. -/
def word : Head → Bytes
  | absent => utf8 "nil"
  | ignore => utf8 "(ignore)"
  | content => utf8 "(content "
  | expression => utf8 "(expr "
  | statement => utf8 "(stmt "
  | create => utf8 "(create "
  | container => utf8 "(container "
  | attr kind => utf8 "(attr " ++ kind.render ++ [space]

def all : List Head :=
  [absent, ignore, content, expression, statement, create, container, attr .value, attr .event, attr .flag]

theorem mem_all (h : Head) : h ∈ all := by
  cases h with
  | attr kind => cases kind <;> decide
  | _ => decide

/-- No word starts another. -/
theorem word_apart : ∀ h ∈ all, ∀ h' ∈ all, h.word <+: h'.word → h = h' := by
  decide +kernel

theorem word_append_inj {h h' : Head} {s t : Bytes} (same : h.word ++ s = h'.word ++ t) :
    h = h' ∧ s = t := by
  have equal : h = h' := by
    rcases List.prefix_or_prefix_of_prefix (List.prefix_append h.word s)
      (same ▸ List.prefix_append h'.word t) with first | second
    · exact word_apart h (mem_all h) h' (mem_all h') first
    · exact (word_apart h' (mem_all h') h (mem_all h) second).symm
  subst equal
  exact ⟨rfl, List.append_cancel_left same⟩

end Head

def head : Intent → Head
  | absent => .absent
  | ignore => .ignore
  | content _ => .content
  | expression _ => .expression
  | statement _ => .statement
  | create .. => .create
  | container _ => .container
  | attr _ kind .. => .attr kind

/-- The text or the reference in the first line, with the parenthesis of an entry that ends there. -/
def payload : Intent → Bytes
  | absent | ignore => []
  | content text | expression text | statement text => text.quoted ++ [rparen]
  | create ref _ _ => ref
  | container ⟨target, []⟩ => target ++ [rparen]
  | container ⟨target, _ :: _⟩ => target
  | attr target _ _ _ => target

/-- The lines below the first. -/
def moreLines (depth : Nat) : Intent → Bytes
  | create _ first second | attr _ _ first second =>
    dumpContainer? (depth + 1) first ++ (dumpContainer? (depth + 1) second ++ indented depth [rparen])
  | container ⟨_, n :: ns⟩ => dumpNodes (depth + 1) (n :: ns) ++ indented depth [rparen]
  | _ => []

theorem dumpAt_eq (depth : Nat) (n : Intent) :
    dumpAt depth n = indented depth (n.head.word ++ n.payload) ++ n.moreLines depth := by
  have close : utf8 ")" = [rparen] := rfl
  cases n with
  | container c =>
    obtain ⟨target, _ | ⟨n, ns⟩⟩ := c
    · simp [dumpAt, dumpContainer, head, Head.word, payload, moreLines, close]
    · rw [moreLines, dumpNodes]
      simp [dumpAt, dumpContainer, head, Head.word, payload, close]
  | _ => simp [dumpAt, head, Head.word, payload, moreLines, close]

theorem indented_append_inj {depth : Nat} {s t x y : Bytes}
    (same : indented depth s ++ x = indented depth t ++ y) : s ++ lf :: x = t ++ lf :: y := by
  simpa [indented] using same

/-- The end of an entry and an entry inside it are indented differently. -/
theorem close_ne_dumpAt (depth : Nat) (n : Intent) (x y : Bytes) :
    indented depth [rparen] ++ x ≠ dumpAt (depth + 1) n ++ y := by
  rw [dumpAt_eq]
  intro same
  have twice : 2 * (depth + 1) = 2 * depth + 2 := by omega
  simp only [indented, Bytes.replicate, twice, List.replicate_add, List.append_assoc] at same
  have byte := List.cons.inj (List.append_cancel_left same)
  exact absurd byte.1 (by decide)

theorem head_append_inj {depth : Nat} {a b : Intent} {x y : Bytes}
    (same : dumpAt depth a ++ x = dumpAt depth b ++ y) :
    a.head = b.head ∧
      a.payload ++ lf :: (a.moreLines depth ++ x) = b.payload ++ lf :: (b.moreLines depth ++ y) := by
  rw [dumpAt_eq, dumpAt_eq, List.append_assoc, List.append_assoc] at same
  have lines := indented_append_inj same
  rw [List.append_assoc, List.append_assoc] at lines
  exact Head.word_append_inj lines

theorem line_append_inj {s t x y : Bytes} (first : lf ∉ s) (second : lf ∉ t)
    (same : s ++ lf :: x = t ++ lf :: y) : s = t ∧ x = y := by
  rcases List.append_eq_append_iff.mp same with ⟨more, rfl, rest⟩ | ⟨more, rfl, rest⟩
  · cases more with
    | nil => simpa using rest
    | cons c more =>
      obtain ⟨rfl, -⟩ := List.cons.inj rest
      exact absurd (by simp) second
  · cases more with
    | nil => simpa using rest.symm
    | cons c more =>
      obtain ⟨rfl, -⟩ := List.cons.inj rest
      exact absurd (by simp) first

mutual

/-- The references in an intent, at any depth. -/
def refs : Intent → List Bytes
  | create ref tag setup => ref :: (refsIn? tag ++ refsIn? setup)
  | container c => refsIn c
  | attr target _ name value => target :: (refsIn? name ++ refsIn? value)
  | absent | ignore | content _ | expression _ | statement _ => []

def refsIn? : Option (Container Intent) → List Bytes
  | none => []
  | some c => refsIn c

def refsIn : Container Intent → List Bytes
  | ⟨target, nodes⟩ => target :: refsOf nodes

def refsOf : List Intent → List Bytes
  | [] => []
  | n :: ns => refs n ++ refsOf ns

end

/-- A reference that shows where it ends. -/
def IsPlainRef (ref : Bytes) : Prop := lf ∉ ref ∧ rparen ∉ ref

/-- The dump of an intent, whatever follows it, determines the intent and where it ends. -/
def Readable (a : Intent) : Prop :=
  ∀ (b : Intent) (depth : Nat) (x y : Bytes), (∀ ref ∈ a.refs, IsPlainRef ref) →
    (∀ ref ∈ b.refs, IsPlainRef ref) → dumpAt depth a ++ x = dumpAt depth b ++ y → a = b ∧ x = y

section Parts
variable {depth : Nat} {x y : Bytes}

/-- A container that may be absent is an intent of its own. -/
def ofContainer? (c : Option (Container Intent)) : Intent := c.elim absent container

theorem dumpContainer?_append_inj {c c' : Option (Container Intent)} (readable : (ofContainer? c).Readable)
    (plain : ∀ ref ∈ refsIn? c, IsPlainRef ref) (plain' : ∀ ref ∈ refsIn? c', IsPlainRef ref)
    (same : dumpContainer? depth c ++ x = dumpContainer? depth c' ++ y) : c = c' ∧ x = y := by
  have dumped (c : Option (Container Intent)) :
      dumpContainer? depth c = dumpAt depth (ofContainer? c) := by
    cases c <;> simp [ofContainer?, dumpContainer?, dumpAt]
  have listed (c : Option (Container Intent)) : refsIn? c = (ofContainer? c).refs := by
    cases c <;> simp [ofContainer?, refsIn?, refs]
  rw [dumped, dumped] at same
  rw [listed] at plain plain'
  obtain ⟨equal, rest⟩ := readable _ depth x y plain plain' same
  refine ⟨?_, rest⟩
  cases c <;> cases c' <;> simp_all [ofContainer?]

/-- An entry with two containers under its reference. -/
theorem pair_append_inj {ref ref' : Bytes} {c c' d d' : Option (Container Intent)}
    (readable : (ofContainer? c).Readable ∧ (ofContainer? d).Readable)
    (plain : ∀ r ∈ ref :: (refsIn? c ++ refsIn? d), IsPlainRef r)
    (plain' : ∀ r ∈ ref' :: (refsIn? c' ++ refsIn? d'), IsPlainRef r)
    (same : ref ++ lf :: (dumpContainer? (depth + 1) c ++
        (dumpContainer? (depth + 1) d ++ indented depth [rparen]) ++ x) =
      ref' ++ lf :: (dumpContainer? (depth + 1) c' ++
        (dumpContainer? (depth + 1) d' ++ indented depth [rparen]) ++ y)) :
    ref = ref' ∧ c = c' ∧ d = d' ∧ x = y := by
  rw [List.forall_mem_cons, List.forall_mem_append] at plain plain'
  obtain ⟨line, first, second⟩ := plain
  obtain ⟨line', first', second'⟩ := plain'
  obtain ⟨refs, lines⟩ := line_append_inj line.1 line'.1 same
  simp only [List.append_assoc] at lines
  obtain ⟨names, lines⟩ := dumpContainer?_append_inj readable.1 first first' lines
  obtain ⟨values, lines⟩ := dumpContainer?_append_inj readable.2 second second' lines
  exact ⟨refs, names, values, List.append_cancel_left lines⟩

/-- The entries of a container end where its parenthesis stands. -/
theorem dumpNodes_append_inj {as bs : List Intent} (readable : ∀ a ∈ as, a.Readable)
    (plain : ∀ ref ∈ refsOf as, IsPlainRef ref) (plain' : ∀ ref ∈ refsOf bs, IsPlainRef ref)
    (same : dumpNodes (depth + 1) as ++ (indented depth [rparen] ++ x) =
      dumpNodes (depth + 1) bs ++ (indented depth [rparen] ++ y)) : as = bs ∧ x = y := by
  induction as generalizing bs with
  | nil =>
    cases bs with
    | nil => exact ⟨rfl, List.append_cancel_left (List.append_cancel_left same)⟩
    | cons b bs =>
      rw [dumpNodes, dumpNodes, List.nil_append, List.append_assoc] at same
      exact absurd same (close_ne_dumpAt depth b _ _)
  | cons a as ih =>
    cases bs with
    | nil =>
      rw [dumpNodes, dumpNodes, List.nil_append, List.append_assoc] at same
      exact absurd same.symm (close_ne_dumpAt depth a _ _)
    | cons b bs =>
      rw [dumpNodes, dumpNodes, List.append_assoc, List.append_assoc] at same
      rw [List.forall_mem_cons] at readable
      rw [refsOf, List.forall_mem_append] at plain plain'
      obtain ⟨rfl, rest⟩ := readable.1 b (depth + 1) _ _ plain.1 plain'.1 same
      obtain ⟨rfl, ended⟩ := ih readable.2 plain.2 plain'.2 rest
      exact ⟨rfl, ended⟩

end Parts

theorem readable_text {s t x y : Bytes}
    (same : s.quoted ++ [rparen] ++ lf :: x = t.quoted ++ [rparen] ++ lf :: y) : s = t ∧ x = y := by
  rw [List.append_assoc, List.append_assoc] at same
  obtain ⟨text, rest⟩ := Bytes.quoted_append_inj same
  exact ⟨text, by simpa using rest⟩

theorem readable_container {target : Bytes} {nodes : List Intent} (readable : ∀ n ∈ nodes, n.Readable) :
    (container ⟨target, nodes⟩).Readable := by
  intro b depth x y plain plain' same
  obtain ⟨heads, lines⟩ := head_append_inj same
  cases b with
  | container c =>
    obtain ⟨target', nodes'⟩ := c
    rw [refs, refsIn, List.forall_mem_cons] at plain plain'
    obtain ⟨⟨line, whole⟩, plain⟩ := plain
    obtain ⟨⟨line', whole'⟩, plain'⟩ := plain'
    have ended {target : Bytes} (line : lf ∉ target) : lf ∉ target ++ [rparen] := by
      simpa using ⟨line, by decide⟩
    cases nodes with
    | nil =>
      cases nodes' with
      | nil =>
        obtain ⟨same, rest⟩ := line_append_inj (ended line) (ended line') lines
        exact ⟨by rw [List.append_cancel_right same], rest⟩
      | cons n ns =>
        obtain ⟨same, -⟩ := line_append_inj (ended line) line' lines
        exact absurd (show rparen ∈ target' by rw [← show _ = target' from same]; simp) whole'
    | cons n ns =>
      cases nodes' with
      | nil =>
        obtain ⟨same, -⟩ := line_append_inj line (ended line') lines
        exact absurd (show rparen ∈ target by rw [show target = _ from same]; simp) whole
      | cons n' ns' =>
        obtain ⟨same, rest⟩ := line_append_inj line line' lines
        rw [moreLines, moreLines, List.append_assoc, List.append_assoc] at rest
        obtain ⟨nodes, rest⟩ := dumpNodes_append_inj readable plain plain' rest
        exact ⟨by rw [show target = target' from same, nodes], rest⟩
  | _ => cases heads

theorem readable_ofContainer? {c : Option (Container Intent)}
    (readable : ∀ d, c = some d → (container d).Readable) : (ofContainer? c).Readable := by
  cases c with
  | some d => exact readable d rfl
  | none =>
    intro b depth x y _ _ same
    obtain ⟨heads, lines⟩ := head_append_inj same
    cases b with
    | absent => exact ⟨rfl, by simpa [ofContainer?, payload, moreLines] using lines⟩
    | _ => cases heads

/-- Every dump is readable: one case for each kind of entry, of which all but the leaves go on with
what is inside them. -/
theorem readable (a : Intent) : a.Readable := by
  cases a with
  | absent => exact readable_ofContainer? (c := none) nofun
  | container c =>
    obtain ⟨target, nodes⟩ := c
    exact readable_container fun n mem => readable n
  | create ref tag setup =>
    intro b depth x y plain plain' same
    obtain ⟨heads, lines⟩ := head_append_inj same
    cases b with
    | create ref' tag' setup' =>
      rw [refs] at plain plain'
      obtain ⟨rfl, rfl, rfl, rest⟩ := pair_append_inj
        ⟨readable_ofContainer? fun d same => readable (.container d),
          readable_ofContainer? fun d same => readable (.container d)⟩ plain plain' lines
      exact ⟨rfl, rest⟩
    | _ => cases heads
  | attr target kind name value =>
    intro b depth x y plain plain' same
    obtain ⟨heads, lines⟩ := head_append_inj same
    cases b with
    | attr target' kind' name' value' =>
      rw [refs] at plain plain'
      obtain ⟨rfl, rfl, rfl, rest⟩ := pair_append_inj
        ⟨readable_ofContainer? fun d same => readable (.container d),
          readable_ofContainer? fun d same => readable (.container d)⟩ plain plain' lines
      cases heads
      exact ⟨rfl, rest⟩
    | _ => cases heads
  | ignore =>
    intro b depth x y _ _ same
    obtain ⟨heads, lines⟩ := head_append_inj same
    cases b with
    | ignore => exact ⟨rfl, by simpa [payload, moreLines] using lines⟩
    | _ => cases heads
  | content text =>
    intro b depth x y _ _ same
    obtain ⟨heads, lines⟩ := head_append_inj same
    cases b with
    | content text' => exact (readable_text lines).imp_left (congrArg content)
    | _ => cases heads
  | expression code =>
    intro b depth x y _ _ same
    obtain ⟨heads, lines⟩ := head_append_inj same
    cases b with
    | expression code' => exact (readable_text lines).imp_left (congrArg expression)
    | _ => cases heads
  | statement code =>
    intro b depth x y _ _ same
    obtain ⟨heads, lines⟩ := head_append_inj same
    cases b with
    | statement code' => exact (readable_text lines).imp_left (congrArg statement)
    | _ => cases heads
termination_by sizeOf a

/-- Intents with the same dump are the same, whatever texts and code they hold, if every reference in
them shows where it ends: it stands on one line and closes no parenthesis. -/
theorem dump_injective {a b : Intent} (plain : ∀ ref ∈ a.refs, IsPlainRef ref)
    (plain' : ∀ ref ∈ b.refs, IsPlainRef ref) (same : a.dump = b.dump) : a = b := by
  have whole : dumpAt 0 a ++ [] = dumpAt 0 b ++ [] := by
    rw [List.append_nil, List.append_nil]
    exact same
  exact (readable a b 0 [] [] plain plain' whole).1

instance : DecidablePred IsPlainRef := fun _ => inferInstanceAs (Decidable (_ ∧ _))

/-- An attribute without a value, and a text of a parenthesis, a line feed, a byte that is no character,
code and a quote. -/
def oddText : Bytes := utf8 "<br b>(\n" ++ [0xFF] ++ utf8 "\x7b=x\x7d\""

def oddIntent : Intent :=
  let br := utf8 "@br_1"
  let root := utf8 "root"
  let flag := attr br .flag (some ⟨br, [content (utf8 "b")]⟩) none
  container ⟨root, [container ⟨br, [create br (some ⟨br, [content (utf8 "br")]⟩) (some ⟨br, [flag]⟩)]⟩,
    container ⟨root, [content (utf8 "(\n" ++ [0xFF]), expression (utf8 "x"), content (utf8 "\"")]⟩]⟩

theorem dump_injective_odd_text : (∀ ref ∈ oddIntent.refs, IsPlainRef ref) ∧
    ∃ c, Pipeline.barePipeline.intents oddText = .ok c ∧ container c = oddIntent := by
  have plain : ∀ ref ∈ oddIntent.refs, IsPlainRef ref := by decide +kernel
  have built : (Pipeline.barePipeline.intents oddText).map
      (fun c => ((container c).dump, decide (∀ ref ∈ (container c).refs, IsPlainRef ref))) =
        .ok (oddIntent.dump, true) := by
    decide +kernel
  refine ⟨plain, ?_⟩
  cases result : Pipeline.barePipeline.intents oddText with
  | error f => rw [result] at built; cases built
  | ok c =>
    rw [result] at built
    obtain ⟨same, plain'⟩ := Prod.mk.inj (Except.ok.inj built)
    exact ⟨c, rfl, dump_injective (of_decide_eq_true plain') plain same⟩

end Intent
end DomTemplate
