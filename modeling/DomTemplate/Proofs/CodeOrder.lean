import DomTemplate.Proofs.Places

/-! Every block comes back once, in order. A mark travels through the tokens of the masked text,
through lower case and through the decoding of references, and none of these drops a mark, makes
one or exchanges two. The code of a document is therefore that of the blocks of its source, but
for those in comments, in doctypes, behind the name of a closing tag and in repeated attributes. -/

namespace DomTemplate
open Ascii Bytes Markup

/-- `ks` are the numbers of the marks in a text, in order, and outside the marks there is none of
the characters `subs`. -/
inductive Marked (subs : List Bytes) : Bytes → List Nat → Prop where
  | nil : Marked subs [] []
  | byte {b : UInt8} {s : Bytes} {ks : List Nat} (plain : ∀ sub ∈ subs, ¬sub <+: b :: s)
      (rest : Marked subs s ks) : Marked subs (b :: s) ks
  | mark (k : Nat) {s : Bytes} {ks : List Nat} (rest : Marked subs s ks) :
      Marked subs (mark k ++ s) (k :: ks)

theorem mark_tail (k : Nat) : ∃ tail, mark k = 0xEE :: tail ∧ ∀ b ∈ tail, isMarkByte b = true :=
  ⟨[0x80, 0x80] ++ decimal k ++ markClose, rfl, (List.forall_mem_cons.mp (isMarkByte_mark k)).2⟩

theorem Unopened.not_starts {sub : Bytes} {c : UInt8} {u : Bytes} (h : Unopened sub (c :: u))
    (s : Bytes) : ¬sub <+: c :: (u ++ s) := by
  rintro ⟨rest, split⟩
  have later := (h rest s (split ▸ List.suffix_rfl)).length_le
  rw [split] at later
  simp only [List.length_cons, List.length_append] at later
  omega

/-- Reserved characters, the opening one among them. -/
structure Charset (subs : List Bytes) : Prop where
  opening : markOpen ∈ subs
  reserved : ∀ sub ∈ subs, sub ∈ reserved

theorem charset_opening : Charset [markOpen] := ⟨List.mem_cons_self, by simp [reserved]⟩

theorem charset_reserved : Charset reserved := ⟨List.mem_cons_self, fun _ mem => mem⟩

namespace Marked
variable {subs : List Bytes} {s t u : Bytes} {ks : List Nat}

theorem cons_cases {c : UInt8} (h : Marked subs (c :: s) ks) :
    ((∀ sub ∈ subs, ¬sub <+: c :: s) ∧ Marked subs s ks) ∨
      ∃ k s' ks', c :: s = DomTemplate.mark k ++ s' ∧ ks = k :: ks' ∧ Marked subs s' ks' := by
  generalize whole : c :: s = t at h
  cases h with
  | nil => cases whole
  | byte plain rest =>
    cases whole
    exact .inl ⟨plain, rest⟩
  | mark k rest => exact .inr ⟨k, _, _, rfl, rfl, rest⟩

theorem append_unopened (chars : Charset subs) (h : ∀ sub ∈ subs, Unopened sub u) :
    Marked subs (u ++ s) ks ↔ Marked subs s ks := by
  induction u with
  | nil => rfl
  | cons c u ih =>
    have later : ∀ sub ∈ subs, Unopened sub u := fun sub mem rest tail opens =>
      h sub mem rest tail (opens.trans (List.suffix_cons _ _))
    have plain : ∀ sub ∈ subs, ¬sub <+: c :: (u ++ s) := fun sub mem => (h sub mem).not_starts s
    rw [← ih later]
    constructor
    · intro marks
      rcases marks.cons_cases with ⟨-, rest⟩ | ⟨k, s', ks', whole, -⟩
      · exact rest
      · have opens : c :: (u ++ s) = markOpen ++ (decimal k ++ markClose ++ s') := by
          rw [← List.append_assoc, ← List.append_assoc]
          exact whole
        exact absurd ⟨_, opens.symm⟩ (plain markOpen chars.opening)
    · exact fun marks => .byte plain marks

/-- Harmless replacements keep the marks of a text. -/
theorem patched {p : Bytes → Bytes → Prop} (chars : Charset subs)
    (harmless : ∀ old new, p old new → Harmless subs old new) (h : Patched p s t)
    (marks : Marked subs s ks) : Marked subs t ks := by
  induction size : s.length using Nat.strongRecOn generalizing s t ks with
  | ind size ih =>
    cases h with
    | nil => exact marks
    | @copy b s t rest =>
      rw [List.length_cons] at size
      rcases marks.cons_cases with ⟨plain, later⟩ | ⟨k, s', ks', whole, rfl, later⟩
      · refine .byte (fun sub mem opens => plain sub mem ?_) (ih s.length (by omega) rest later rfl)
        obtain ⟨c, u, rfl⟩ := List.exists_cons_of_ne_nil
          (reserved_ne_nil sub (chars.reserved sub mem))
        obtain ⟨tail, split⟩ := opens
        obtain ⟨rfl, rfl⟩ := List.cons.inj split
        obtain ⟨before, rfl, -⟩ := rest.copied_prefix harmless mem fun _ inside => inside
        exact List.prefix_append _ _
      · -- the bytes of a mark are copied, and what comes behind them is patched
        obtain ⟨tail, mark, inside⟩ := mark_tail k
        rw [mark, List.cons_append] at whole
        obtain ⟨rfl, rfl⟩ := List.cons.inj whole
        rw [List.length_append] at size
        obtain ⟨t', rfl, behind⟩ := rest.copies harmless inside
        rw [← List.cons_append, ← mark]
        exact .mark k (ih s'.length (by omega) behind later rfl)
    | @patch old new s t allowed rest =>
      have patch := harmless _ _ allowed
      have spared : ∀ sub ∈ subs, Unopened sub old := fun sub mem =>
        unopened_of_forall (chars.reserved sub mem) patch.spares
      have shorter : s.length < (old ++ s).length := by
        obtain ⟨b, bs, rfl, -⟩ := patch.starts
        rw [List.length_append, List.length_cons]
        omega
      have later := ih s.length (size ▸ shorter) rest ((append_unopened chars spared).mp marks) rfl
      exact (append_unopened chars fun sub mem => (patch.inert sub mem).opens).mpr later

/-- A text is a gap, then a mark and a marked text, or nothing but a gap. -/
theorem cut? (chars : Charset subs) (h : Marked subs s ks) :
    (ks = [] ∧ Bytes.cut? markOpen s = none ∧ ∀ sub ∈ subs, Avoids s sub) ∨
      ∃ k ks' head rest, ks = k :: ks' ∧ Marked subs rest ks' ∧
        Bytes.cut? markOpen s = some (head, decimal k ++ markClose ++ rest) ∧
        ∀ sub ∈ subs, Avoids head sub := by
  have nonempty : ∀ sub ∈ subs, sub ≠ [] := fun sub mem =>
    reserved_ne_nil sub (chars.reserved sub mem)
  induction h with
  | nil => exact .inl ⟨rfl, rfl, fun sub mem => avoids_nil (nonempty sub mem)⟩
  | @byte b s ks plain rest ih =>
    have absent : dropPrefix? markOpen (b :: s) = none := by
      by_contra present
      obtain ⟨tail, found⟩ := Option.ne_none_iff_exists'.mp present
      exact plain markOpen chars.opening ⟨tail, (dropPrefix?_eq_some.mp found).symm⟩
    have extend {gap : Bytes} (starts : gap <+: s) (avoids : ∀ sub ∈ subs, Avoids gap sub) :
        ∀ sub ∈ subs, Avoids (b :: gap) sub := by
      intro sub mem occurs
      rcases List.infix_cons_iff.mp occurs with here | later
      · exact plain sub mem (here.trans (List.cons_prefix_cons.mpr ⟨rfl, starts⟩))
      · exact avoids sub mem later
    rw [Bytes.cut?, absent]
    rcases ih with ⟨none, missing, avoids⟩ | ⟨k, ks', head, tail, same, later, found, avoids⟩
    · exact .inl ⟨none, by simp only [missing]; rfl, extend List.prefix_rfl avoids⟩
    · obtain ⟨split, -⟩ := cut?_spec (by decide) found
      refine .inr ⟨k, ks', b :: head, tail, same, later, by simp only [found]; rfl, ?_⟩
      refine extend ?_ avoids
      rw [split, List.append_assoc]
      exact List.prefix_append _ _
  | @mark k s ks rest ih =>
    refine .inr ⟨k, ks, [], s, rfl, rest, ?_, fun sub mem => avoids_nil (nonempty sub mem)⟩
    have first := cut?_of_not_mem (a := 0xEE) List.not_mem_nil [0x80, 0x80] (decimal k ++ markClose ++ s)
    rw [DomTemplate.mark, List.append_assoc, List.append_assoc, ← List.append_assoc (decimal k)]
    exact first

end Marked

def Part.code? : Part → Option Code
  | code block => some block
  | absent | raw _ | misplaced _ => none

theorem Node.blocks_eq (n : Node) : n.blocks = n.parts.filterMap Part.code? := by
  refine List.filterMap_congr fun p _ => ?_
  cases p <;> rfl

/-- The parts of a text with the marks of `es`: their code, and literals without the characters
`subs`. -/
theorem parts_expand (src : Bytes) {subs : List Bytes} (chars : Charset subs)
    {blocks es : List (Nat × Block)} {s : Bytes} (known : ∀ e ∈ es, blocks[e.2.number]? = some e)
    (marks : Marked subs s (es.map (·.2.number))) :
    Answers (fun _ => True)
      (fun parts => parts.filterMap Part.code? = es.map (fun e => e.2.code src e.1) ∧
        ∀ value, .raw value ∈ parts → ∀ sub ∈ subs, Avoids value sub)
      (expand src blocks s) := by
  induction es generalizing s with
  | nil =>
    rcases marks.cut? chars with ⟨-, missing, avoids⟩ | ⟨k, ks, head, rest, same, -⟩
    · rw [expand_eq, firstMark, missing]
      split
      · exact ⟨rfl, by simp⟩
      · exact ⟨rfl, by simpa using avoids⟩
    · cases same
  | cons e es ih =>
    rw [List.forall_mem_cons] at known
    rcases marks.cut? chars with ⟨none, -⟩ | ⟨k, ks, head, rest, same, later, found, avoids⟩
    · cases none
    obtain ⟨rfl, rfl⟩ := List.cons.inj same
    have nonempty : s.isEmpty = false := by
      cases s with
      | nil => cases found
      | cons => rfl
    rw [expand_eq, firstMark_opened found known.1, nonempty]
    by_cases small : e.2.number < signedLimit
    · rw [if_pos small]
      have gap : ∀ sub ∈ subs, Avoids (e.2.headOf head) sub := fun sub mem =>
        (avoids sub mem).inside (e.2.headOf_starts head).isInfix
      simp only [if_false, Bool.false_eq_true]
      refine (ih known.2 later).map fun parts answer => ?_
      rw [List.map_cons, ← answer.1]
      split
      · exact ⟨rfl, by simpa using answer.2⟩
      · refine ⟨rfl, fun value mem => ?_⟩
        simp only [List.mem_cons, Part.raw.injEq, reduceCtorEq, false_or] at mem
        rcases mem with rfl | mem
        · exact gap
        · exact answer.2 value mem
    · rw [if_neg small]
      exact trivial

namespace Masked

theorem blocksFrom_append (start : Nat) (m m' : Masked) :
    Masked.blocksFrom start (m ++ m') =
      m.blocksFrom start ++ m'.blocksFrom (start + m.source.length) := by
  induction m generalizing start with
  | nil => rfl
  | cons p m ih =>
    rw [List.cons_append, blocksFrom_cons, blocksFrom_cons, ih, source_cons, List.length_append,
      List.append_assoc, Nat.add_assoc]

end Masked

namespace Cut
variable {d : Delimiters} {state : MaskState} {context : BraceContext} {s : Bytes} {m front ps back : Masked}

/-- Blocks are numbered in the order in which they stand. -/
theorem numbers (cut : Cut d state context s m) (start : Nat) :
    (m.blocksFrom start).map (·.2.number) = List.range' state.number (m.blocksFrom start).length := by
  induction cut generalizing start with
  | nil => rfl
  | escape after ih | byte plain after ih => exact ih _
  | block encloses nonempty allowed after ih =>
    rw [Masked.blocksFrom, List.map_cons, List.length_cons, List.range'_succ, ih]
    rfl

/-- A block is found under its number. -/
theorem getElem?_number (cut : Cut d {} context s m) {e : Nat × Block} (mem : e ∈ m.blocks) :
    m.blocks[e.2.number]? = some e := by
  obtain ⟨i, inside, rfl⟩ := List.getElem_of_mem mem
  have number : (m.blocks.map (·.2.number))[i]? = (List.range' 0 m.blocks.length)[i]? :=
    congrArg (·[i]?) (cut.numbers 0)
  rw [List.getElem?_map, List.getElem?_range' inside, List.getElem?_eq_getElem inside] at number
  have same : m.blocks[i].2.number = i := by simpa using number
  rw [same, List.getElem?_eq_getElem inside]

theorem of_append (cut : Cut d state context s (front ++ back)) :
    ∃ state' context' s', Cut d state' context' s' back ∧ s' <:+ s := by
  induction front generalizing state context s with
  | nil => exact ⟨_, _, _, cut, List.suffix_rfl⟩
  | cons p front ih =>
    cases cut with
    | escape after | block _ _ _ after =>
      obtain ⟨state', context', s', left, ends⟩ := ih after
      exact ⟨state', context', s', left, ends.trans (List.suffix_append _ _)⟩
    | byte plain after =>
      obtain ⟨state', context', s', left, ends⟩ := ih after
      exact ⟨state', context', s', left, ends.trans (List.suffix_cons _ _)⟩

/-- The marks in the text of pieces are those of their blocks. -/
theorem marked {subs : List Bytes} (chars : Charset subs) (cut : Cut d state context s (ps ++ back))
    (clean : ∀ sub ∈ subs, Avoids s sub) (start : Nat) :
    Marked subs ps.text ((ps.blocksFrom start).map (·.2.number)) := by
  have low {u : Bytes} (h : ∀ b ∈ u, b ≠ 0xEE) : ∀ sub ∈ subs, Unopened sub u := fun sub mem =>
    unopened_of_forall (chars.reserved sub mem) h
  induction ps generalizing state context s start with
  | nil => exact .nil
  | cons p ps ih =>
    have later {s' : Bytes} (ends : s' <:+ s) : ∀ sub ∈ subs, Avoids s' sub := fun sub mem =>
      (clean sub mem).inside ends.isInfix
    rw [Masked.text_cons]
    cases cut with
    | escape after =>
      refine (Marked.append_unopened chars (low ?_)).mpr (ih after (later (List.suffix_append _ _)) _)
      cases d <;> decide +kernel
    | @block _ _ inner written rest _ encloses nonempty allowed after =>
      have marks := ih after (later (List.suffix_append _ _)) (start + written.length)
      rw [Piece.shown, Block.shown, List.append_assoc]
      refine (Marked.append_unopened chars (low ?_)).mpr (.mark _ marks)
      split <;> decide +kernel
    | byte plain after =>
      refine .byte (fun sub mem opens => ?_) (ih after (later (List.suffix_cons _ _)) _)
      -- the bytes of the character would stand in the source
      have whole := opens.trans (List.cons_prefix_cons.mpr
        ⟨rfl, show Masked.text ps <+: Masked.text (ps ++ back) from ⟨_, (Masked.text_append ps back).symm⟩⟩)
      exact clean sub mem (after.reserved_prefix (chars.reserved sub mem) whole).isInfix

end Cut

namespace RawAttribute

/-- Byte `n` of a tag stands in an attribute whose key an earlier one has: the last attribute that
starts at `n` or before. -/
def repeatsAt (as : List RawAttribute) (n : Nat) : Bool :=
  match (as.filter (·.offset ≤ n)).reverse with
  | [] => false
  | a :: earlier => earlier.any fun b => Bytes.lower b.key == Bytes.lower a.key

section
variable {before after : List RawAttribute} {a : RawAttribute} {n : Nat}

theorem filter_ahead (ahead : ∀ b ∈ after, n < b.offset) : after.filter (·.offset ≤ n) = [] := by
  refine List.filter_eq_nil_iff.mpr fun b mem => ?_
  have later := ahead b mem
  simpa using later

theorem repeatsAt_eq_false (ahead : ∀ b ∈ after, n < b.offset) : repeatsAt after n = false := by
  rw [repeatsAt, filter_ahead ahead]
  rfl

theorem repeatsAt_eq (past : ∀ b ∈ before, b.offset ≤ n) (here : a.offset ≤ n)
    (ahead : ∀ b ∈ after, n < b.offset) :
    repeatsAt (before ++ a :: after) n =
      before.any fun b => Bytes.lower b.key == Bytes.lower a.key := by
  have all : before.filter (·.offset ≤ n) = before :=
    List.filter_eq_self.mpr fun b mem => decide_eq_true (past b mem)
  have kept : (before ++ a :: after).filter (·.offset ≤ n) = before ++ [a] := by
    rw [List.filter_append, List.filter_cons, if_pos (decide_eq_true here), all,
      filter_ahead ahead]
  rw [repeatsAt, kept, List.reverse_concat]
  exact List.any_reverse

end

/-- `seen` are the keys of `before` in small letters. -/
def Seen (seen : List Bytes) (before : List RawAttribute) : Prop :=
  ∀ k ≠ [], k ∈ seen ↔ ∃ b ∈ before, Bytes.lower b.key = k

namespace Seen
variable {seen : List Bytes} {before : List RawAttribute} {a : RawAttribute}

theorem any_eq (h : Seen seen before) (named : a.key ≠ []) :
    (before.any fun b => Bytes.lower b.key == Bytes.lower a.key) =
      seen.contains (Bytes.lower a.key) := by
  have nonempty : Bytes.lower a.key ≠ [] := by simpa [Bytes.lower] using named
  rw [Bool.eq_iff_iff, List.any_eq_true, List.contains_iff_mem, h _ nonempty]
  simp only [beq_iff_eq]

theorem skip (h : Seen seen before)
    (skipped : (a.key.isEmpty || seen.contains (Bytes.lower a.key)) = true) :
    Seen seen (before ++ [a]) := by
  intro k nonempty
  rw [h k nonempty]
  constructor
  · exact fun ⟨b, mem, same⟩ => ⟨b, List.mem_append_left _ mem, same⟩
  · rintro ⟨b, mem, rfl⟩
    rcases List.mem_append.mp mem with old | new
    · exact ⟨b, old, rfl⟩
    · rw [List.mem_singleton.mp new] at nonempty ⊢
      have named : a.key ≠ [] := by simpa [Bytes.lower] using nonempty
      exact (h _ nonempty).mp (by simpa [named] using skipped)

theorem push (h : Seen seen before) (a : RawAttribute) :
    Seen (Bytes.lower a.key :: seen) (before ++ [a]) := by
  intro k nonempty
  rw [List.mem_cons, h k nonempty]
  constructor
  · rintro (rfl | ⟨b, mem, same⟩)
    · exact ⟨a, by simp, rfl⟩
    · exact ⟨b, by simp [mem], same⟩
  · rintro ⟨b, mem, rfl⟩
    rcases List.mem_append.mp mem with old | new
    · exact .inr ⟨b, old, rfl⟩
    · exact .inl (by rw [List.mem_singleton.mp new])

end Seen

/-- Without a key there is no value. -/
theorem value_of_key_nil {size : Nat} {s : Bytes} {a : RawAttribute} (mem : a ∈ readAll size s)
    (bare : a.key = []) : a.value = none := by
  fun_induction readAll size s with
  | case1 | case2 => cases mem
  | case3 s c cs first more shorter smaller ih =>
    rcases List.mem_cons.mp mem with rfl | later
    · have space := isTagSpace_of_skipSpace first
      have whole := keyOf_append (c :: cs)
      have bare : keyOf (c :: cs) = [] := bare
      rw [bare, List.nil_append] at whole
      have slashed : c = slash := by
        by_contra other
        have size := congrArg List.length whole
        have dropped := length_dropWhile_le inKey cs
        rw [afterKey, List.dropWhile_cons] at size
        split_ifs at size with equal inside
        · rw [List.length_cons] at size; omega
        · rw [List.length_cons] at size; omega
        · exact inside (by simp [inKey, space, more, other, equal])
      have skipped : skipSpace (c :: cs) = c :: cs := by simp [skipSpace, space]
      change (readValue (afterKey (c :: cs))).1 = none
      rw [whole, readValue, skipped]
      simp only [if_pos slashed]
    · exact ih later

end RawAttribute

theorem Markup.Attributed.ahead {size : Nat} {ps : Masked} {as : List RawAttribute}
    (h : Attributed size ps as) : ∀ a ∈ as, size ≤ a.offset + ps.text.length := by
  induction h with
  | close => exact nofun
  | attr before named between valued after offset later ih =>
    rw [Masked.text_append, List.length_append]
    refine List.forall_mem_cons.mpr ⟨by omega, fun a mem => ?_⟩
    have behind := ih a mem
    simp only [Masked.text_append, List.length_append]
    omega

namespace Markup

/-- Byte `n` of the token is in no node, or in no part of it that holds code. -/
def Token.omits : Token → (n : Nat) → Bool
  | .text .., _ | .unfinished _, _ => false
  | .startTag raw _, n =>
    RawAttribute.repeatsAt
      (RawAttribute.readAll raw.length ((raw.drop 1).dropWhile (!endsName ·))) n
  | .endTag raw, n => 2 + ((raw.drop 2).takeWhile (!endsName ·)).length ≤ n
  | .comment .., _ | .doctype .., _ => true

/-- Byte `n` of the text of the tokens is in a comment, in a doctype, behind the name of a closing
tag or in an attribute that repeats a key. -/
def omitted : List Token → (n : Nat) → Bool
  | [], _ => false
  | t :: ts, n => if n < t.raw.length then t.omits n else omitted ts (n - t.raw.length)

/-- The references of the token are decoded, and one of them is to the character that opens
marks. -/
def Token.decodesMark : Token → Bool
  | .text raw shown => shown != replaceNul (unifyLines raw) && Entity.refersToMark raw
  | .startTag raw _ =>
    (RawAttribute.ofTag raw ((raw.drop 1).dropWhile (!endsName ·))).any fun a =>
      a.value.any fun v => Entity.refersToMark v.text
  | .endTag _ | .comment .. | .doctype .. | .unfinished _ => false

end Markup

namespace Masked

/-- The blocks at those bytes of the text that `keep` says, with their offsets in the source. -/
def kept (keep : Nat → Bool) (start : Nat) : Masked → List (Nat × Block)
  | [] => []
  | p :: ps =>
    (if keep 0 then (p.block?.map (start, ·)).toList else []) ++
      kept (fun n => keep (p.shown.length + n)) (start + p.written.length) ps

theorem kept_append (keep : Nat → Bool) (start : Nat) (m m' : Masked) :
    kept keep start (m ++ m') = kept keep start m ++
      kept (fun n => keep (m.text.length + n)) (start + m.source.length) m' := by
  induction m generalizing keep start with
  | nil => simp [kept, text, source]
  | cons p m ih =>
    rw [List.cons_append, kept, kept, ih, source_cons, text_cons, List.append_assoc]
    simp only [List.length_append, Nat.add_assoc]

theorem kept_congr {keep keep' : Nat → Bool} {m : Masked} (start : Nat)
    (same : ∀ n < m.text.length, keep n = keep' n) : kept keep start m = kept keep' start m := by
  induction m generalizing keep keep' start with
  | nil => rfl
  | cons p m ih =>
    rw [text_cons, List.length_append] at same
    have later (n : Nat) (less : n < (text m).length) :
        keep (p.shown.length + n) = keep' (p.shown.length + n) := same _ (by omega)
    rw [kept, kept, ih _ later]
    cases p with
    | byte | escape => simp [Piece.block?]
    | block b =>
      have shown := List.length_pos_iff.mpr (isFirm_block b).nonempty
      rw [same 0 (by omega)]

theorem kept_all {keep : Nat → Bool} {m : Masked} (start : Nat)
    (all : ∀ n < m.text.length, keep n = true) : kept keep start m = m.blocksFrom start := by
  refine (kept_congr start all).trans ?_
  clear all
  induction m generalizing start with
  | nil => rfl
  | cons p m ih => rw [kept, blocksFrom_cons, ih]; rfl

theorem kept_none {keep : Nat → Bool} {m : Masked} (start : Nat)
    (none : ∀ n < m.text.length, keep n = false) : kept keep start m = [] := by
  refine (kept_congr start none).trans ?_
  clear none
  induction m generalizing start with
  | nil => rfl
  | cons p m ih => rw [kept, ih]; rfl

/-- A text without the first byte of a mark shows no block. -/
theorem kept_plain {m : Masked} (plain : ∀ b ∈ m.text, b ≠ 0xEE) (keep : Nat → Bool) (start : Nat) :
    kept keep start m = [] := by
  induction m generalizing keep start with
  | nil => rfl
  | cons p m ih =>
    rw [text_cons, List.forall_mem_append] at plain
    rw [kept, ih plain.2, List.append_nil]
    cases p with
    | byte | escape => simp [Piece.block?]
    | block b => exact absurd rfl (plain.1 0xEE (by simp [Piece.shown, Block.shown, mark, markOpen]))

theorem blocksFrom_plain {m : Masked} (plain : ∀ b ∈ m.text, b ≠ 0xEE) (start : Nat) :
    m.blocksFrom start = [] := by
  exact (kept_all start fun _ _ => rfl).symm.trans (kept_plain plain (fun _ => true) start)

theorem mem_kept {keep : Nat → Bool} {m : Masked} {start off : Nat} {b : Block} :
    (off, b) ∈ kept keep start m ↔ ∃ front back, m = front ++ .block b :: back ∧
      off = start + (Masked.source front).length ∧ keep (Masked.text front).length = true := by
  induction m generalizing keep start with
  | nil => simp [kept]
  | cons p m ih =>
    rw [kept, List.mem_append, ih]
    constructor
    · rintro (here | ⟨front, back, rfl, rfl, kept⟩)
      · split_ifs at here with kept
        · obtain ⟨b', found, same⟩ := Option.map_eq_some_iff.mp (Option.mem_toList.mp here)
          cases same
          exact ⟨[], m, by rw [Piece.block?_eq_some.mp found]; rfl, rfl, kept⟩
        · cases here
      · refine ⟨p :: front, back, rfl, ?_, ?_⟩
        · rw [source_cons, List.length_append, Nat.add_assoc]
        · rwa [text_cons, List.length_append]
    · rintro ⟨front, back, split, rfl, kept⟩
      rcases List.cons_eq_append_iff.mp split with ⟨rfl, same⟩ | ⟨front, rfl, rfl⟩
      · cases same
        exact .inl (by simp [show keep 0 = true from kept, Piece.block?, source])
      · refine .inr ⟨front, back, rfl, ?_, ?_⟩
        · rw [source_cons, List.length_append, Nat.add_assoc]
        · rwa [text_cons, List.length_append] at kept

theorem kept_sorted {m : Masked} (written : ∀ p ∈ m, p.written ≠ []) (keep : Nat → Bool)
    (start : Nat) : (kept keep start m).Pairwise fun e e' => e.1 < e'.1 := by
  induction m generalizing keep start with
  | nil => exact .nil
  | cons p m ih =>
    rw [List.forall_mem_cons] at written
    have size := List.length_pos_iff.mpr written.1
    have later := ih written.2 (fun n => keep (p.shown.length + n)) (start + p.written.length)
    rw [kept, List.pairwise_append]
    refine ⟨?_, later, fun e here e' behind => ?_⟩
    · split
      · cases p.block? <;> simp
      · exact .nil
    · obtain ⟨off', b'⟩ := e'
      obtain ⟨front, back, -, same, -⟩ := mem_kept.mp behind
      have first : e.1 = start := by
        split at here
        · obtain ⟨b, -, rfl⟩ := Option.map_eq_some_iff.mp (Option.mem_toList.mp here)
          rfl
        · cases here
      dsimp only
      omega

end Masked

/-- What is kept of an attribute, its key and value, and of what follows it. -/
theorem Masked.kept_attribute {gap middle behind : Masked} (gapped : ∀ b ∈ gap.text, b ≠ 0xEE)
    (after : ∀ b ∈ behind.text, b ≠ 0xEE) (keep : Nat → Bool) (rest front : Masked) :
    kept keep front.source.length (gap ++ (middle ++ (behind ++ rest))) =
      kept (fun n => keep (gap.text.length + n)) (source (front ++ gap)).length middle ++
      kept (fun n => keep ((text (gap ++ (middle ++ behind))).length + n))
        (source (front ++ (gap ++ (middle ++ behind)))).length rest := by
  rw [kept_append, kept_append, kept_append, kept_plain gapped, kept_plain after]
  simp only [text_append, source_append, List.length_append, Nat.add_assoc, List.nil_append]

section Shown
variable {subs : List Bytes} {raw shown : Bytes} {ks : List Nat}

theorem Marked.lines (chars : Charset subs) (marks : Marked subs raw ks) :
    Marked subs (unifyLines raw) ks :=
  marks.patched chars (fun _ _ quiet => quiet.toHarmless.mono chars.reserved) (patched_unifyLines raw)

theorem Marked.content (chars : Charset subs) (marks : Marked subs raw ks) :
    Marked subs (replaceNul (unifyLines raw)) ks :=
  (marks.lines chars).patched chars (fun _ _ quiet => quiet.toHarmless.mono chars.reserved)
    (patched_replaceNul _)

theorem Marked.lowered (chars : Charset subs) (marks : Marked subs raw ks) :
    Marked subs (Bytes.lower raw) ks :=
  marks.patched chars (fun _ _ harmless => harmless.mono chars.reserved) (patched_lower raw)

theorem Marked.decoded (chars : Charset subs) (refs : Entity.Unnamed subs raw)
    (marks : Marked subs raw ks) : Marked subs (Entity.decode raw) ks :=
  marks.patched chars (fun _ _ harmless => harmless) (Entity.patched_decodeFrom refs 0 0)

theorem Marked.shownText (chars : Charset subs) (refs : Entity.Unnamed subs raw)
    (marks : Marked subs raw ks) : Marked subs (Markup.shownText raw) ks :=
  (marks.lines chars).decoded chars (refs.patched (patched_unifyLines raw))

theorem Marked.shownComment (chars : Charset subs) (refs : Entity.Unnamed subs raw)
    (marks : Marked subs raw ks) : Marked subs (Markup.shownComment raw) ks :=
  (marks.content chars).decoded chars
    ((refs.patched (patched_unifyLines raw)).patched (patched_replaceNul _))

/-- What a text token shows has the marks of the text. -/
theorem Markup.Token.IsWhole.marked (chars : Charset subs) (h : (Token.text raw shown).IsWhole)
    (refs : shown ≠ replaceNul (unifyLines raw) → Entity.Unnamed subs raw)
    (marks : Marked subs raw ks) : Marked subs shown ks := by
  by_cases same : shown = replaceNul (unifyLines raw)
  · rw [same]
    exact marks.content chars
  rcases h with rfl | ⟨element, rfl⟩
  · exact marks.shownText chars (refs same)
  · have decoded := marks.shownComment chars (refs same)
    rw [RawElement.shown]
    split
    · exact decoded
    · exact marks.content chars

end Shown

namespace MaskedSource
variable {d : Delimiters} {m : MaskedSource} {front ps back : Masked}

/-- The code of a block and its offset. -/
def codeOf (m : MaskedSource) (e : Nat × Block) : Code := e.2.code m.src e.1

section
variable (cut : Cut d {} .markup m.src m.masked)
include cut

theorem mem_blocks (split : m.masked = front ++ (ps ++ back)) {e : Nat × Block}
    (mem : e ∈ ps.blocksFrom front.source.length) : m.masked.blocks[e.2.number]? = some e := by
  refine cut.getElem?_number ?_
  rw [Masked.blocks, split, Masked.blocksFrom_append, Masked.blocksFrom_append, Nat.zero_add]
  exact List.mem_append_right _ (List.mem_append_left _ mem)

theorem marked_pieces {subs : List Bytes} (chars : Charset subs)
    (clean : ∀ sub ∈ subs, Avoids m.src sub) (split : m.masked = front ++ (ps ++ back)) :
    Marked subs ps.text ((ps.blocksFrom front.source.length).map (·.2.number)) := by
  rw [split] at cut
  obtain ⟨state, context, s, left, ends⟩ := cut.of_append
  exact left.marked chars (fun sub mem => (clean sub mem).inside ends.isInfix) front.source.length

/-- A text with the marks of some pieces has the code of their blocks. -/
theorem parts_pieces {subs : List Bytes} (chars : Charset subs)
    (clean : ∀ sub ∈ subs, Avoids m.src sub) (split : m.masked = front ++ (ps ++ back)) {t : Bytes}
    (keeps : ∀ ks, Marked subs ps.text ks → Marked subs t ks) :
    Answers (fun _ => True) (fun parts =>
        parts.filterMap Part.code? = (ps.blocksFrom front.source.length).map m.codeOf ∧
          ∀ value, .raw value ∈ parts → ∀ sub ∈ subs, Avoids value sub)
      (m.expand t) :=
  parts_expand m.src chars (fun _ mem => mem_blocks cut split mem)
    (keeps _ (marked_pieces cut chars clean split))

end

section
variable (cut : Cut d {} .markup m.src m.masked) (clean : ∀ rest, ¬markOpen ++ rest <:+ m.src)
include cut clean

theorem codes_pieces (split : m.masked = front ++ (ps ++ back)) {t : Bytes}
    (keeps : ∀ ks, Marked [markOpen] ps.text ks → Marked [markOpen] t ks) :
    Answers (fun _ => True) (fun parts =>
        parts.filterMap Part.code? = (ps.blocksFrom front.source.length).map m.codeOf)
      (m.expand t) := by
  have avoids : Avoids m.src markOpen := by
    rintro ⟨before, after, whole⟩
    exact clean after ⟨before, by rw [← List.append_assoc, whole]⟩
  exact (parts_pieces cut charset_opening (List.forall_mem_singleton.mpr avoids) split keeps).mono
    (fun _ _ => trivial) fun _ answer => answer.1

theorem codes_lower (split : m.masked = front ++ (ps ++ back)) :
    Answers (fun _ => True) (fun parts =>
        parts.filterMap Part.code? = (ps.blocksFrom front.source.length).map m.codeOf)
      (m.expand (Bytes.lower ps.text)) :=
  codes_pieces cut clean split fun _ marks => marks.lowered charset_opening

theorem codes_attr (start : Nat) {key within value : Masked} {a : RawAttribute}
    (split : m.masked = front ++ (key ++ (within ++ (value ++ back)))) (named : key.text = a.key)
    (between : ∀ b ∈ within.text, b ≠ 0xEE) (valued : value.text = a.value.elim [] RawValue.text)
    (refs : ∀ v, a.value = some v → Entity.refersToMark v.text = false) :
    Answers (fun _ => True) (fun b : Attribute =>
        (b.name.getD [] ++ b.value.elim [] AttrValue.parts).filterMap Part.code? =
          (Masked.blocksFrom front.source.length (key ++ (within ++ value))).map m.codeOf)
      (m.attr start a) := by
  rw [attr, ← named]
  refine (codes_lower cut clean split).bind fun name codes => ?_
  have inner : Masked.blocksFrom front.source.length (key ++ (within ++ value)) =
      key.blocksFrom front.source.length ++
        value.blocksFrom (front ++ (key ++ within)).source.length := by
    rw [Masked.blocksFrom_append, Masked.blocksFrom_append, Masked.blocksFrom_plain between,
      List.nil_append]
    simp only [Masked.source_append, List.length_append, Nat.add_assoc]
  rw [inner, List.map_append, ← codes]
  have valued : Answers (fun _ => True) (fun value' : Option AttrValue =>
      (value'.elim [] AttrValue.parts).filterMap Part.code? =
        (value.blocksFrom (front ++ (key ++ within)).source.length).map m.codeOf)
      (a.value.mapM fun v => do
        return { quote := v.quote, parts := ← m.expand (Entity.decode v.text) : AttrValue }) := by
    cases read : a.value with
    | none =>
      rw [read] at valued
      rw [Masked.blocksFrom_plain (by simp [valued])]
      rfl
    | some v =>
      rw [read] at valued
      have here : m.masked = front ++ (key ++ within) ++ (value ++ back) := by simp [split]
      have valued : value.text = v.text := valued
      have decoded := codes_pieces cut clean here (t := Entity.decode v.text) fun ks marks =>
        (valued ▸ marks).decoded charset_opening (Entity.unnamed_opening (refs v read))
      rw [Option.mapM_some]
      have written : Answers (fun _ => True) (fun v : AttrValue => v.parts.filterMap Part.code? =
          (value.blocksFrom (front ++ (key ++ within)).source.length).map m.codeOf)
          (do return { quote := v.quote, parts := ← m.expand (Entity.decode v.text) }) :=
        decoded.bind fun parts known => known
      exact written.map fun v known => known
  refine valued.bind fun value' known => ?_
  exact (List.filterMap_append ..).trans (congrArg _ known)

omit cut clean in
theorem blocks_tag (name : List Part) (attrs : List Attribute) (closing solidus : Bool) (pos : Pos) :
    (Node.tag ⟨some name, if attrs.isEmpty then none else some (attrs.map some), closing, solidus,
      pos⟩).blocks = name.filterMap Part.code? ++
        (attrs.flatMap fun b => b.name.getD [] ++ b.value.elim [] AttrValue.parts).filterMap
          Part.code? := by
  rw [Node.blocks_eq, Node.parts, attributes_tag, List.filterMap_append]
  rfl

omit cut clean in
/-- An attribute shows its code, unless it is left out for its key; if it has none, it has no code
either. -/
theorem kept_attr {key within value : Masked} {a : RawAttribute} {before : List RawAttribute}
    {seen : List Bytes} {keep : Nat → Bool} (named : key.text = a.key)
    (between : ∀ b ∈ within.text, b ≠ 0xEE) (valued : value.text = a.value.elim [] RawValue.text)
    (bare : a.key = [] → a.value = none) (known : RawAttribute.Seen seen before)
    (keeps : ∀ n < (Masked.text (key ++ (within ++ value))).length,
      keep n = !before.any fun b => Bytes.lower b.key == Bytes.lower a.key) (start : Nat) :
    Masked.kept keep start (key ++ (within ++ value)) =
      if a.key.isEmpty || seen.contains (Bytes.lower a.key) then []
      else Masked.blocksFrom start (key ++ (within ++ value)) := by
  by_cases nameless : a.key = []
  · rw [if_pos (by simp [nameless])]
    refine Masked.kept_plain ?_ _ _
    rw [Masked.text_append, Masked.text_append, named, valued, bare nameless, nameless]
    simpa using between
  · rw [known.any_eq nameless] at keeps
    cases contained : seen.contains (Bytes.lower a.key) with
    | true => simpa using Masked.kept_none start fun n less => by rw [keeps n less, contained]; rfl
    | false =>
      rw [if_neg (by simp [nameless])]
      exact Masked.kept_all start fun n less => by rw [keeps n less, contained]; rfl

/-- The code of attributes, of which `before` come before the pieces `ps` and are done. -/
theorem codes_attributes (start : Nat) {size : Nat} {as before : List RawAttribute} {seen : List Bytes}
    (h : Attributed size ps as) (split : m.masked = front ++ (ps ++ back))
    (fits : ps.text.length ≤ size)
    (refs : ∀ a ∈ RawAttribute.distinct seen as, ∀ v, a.value = some v →
      Entity.refersToMark v.text = false)
    (bare : ∀ a ∈ as, a.key = [] → a.value = none) (known : RawAttribute.Seen seen before)
    (past : ∀ b ∈ before, b.offset + ps.text.length ≤ size) :
    Answers (fun _ => True) (fun attrs : List Attribute =>
        (attrs.flatMap fun b => b.name.getD [] ++ b.value.elim [] AttrValue.parts).filterMap
          Part.code? =
            (ps.kept (fun n => !RawAttribute.repeatsAt (before ++ as) (size - ps.text.length + n))
              front.source.length).map m.codeOf)
      ((RawAttribute.distinct seen as).mapM (m.attr start)) := by
  have separate : ∀ b, isSeparator b = true → b ≠ 0xEE := forall_byte (by decide +kernel)
  induction h generalizing front before seen with
  | close plain =>
    rw [Masked.kept_plain fun b mem => separate b (plain b mem)]
    rfl
  | @attr gap key within value behind rest a as gapped named between valued after offset later ih =>
    rw [List.forall_mem_cons] at bare
    have shape : gap ++ (key ++ (within ++ (value ++ (behind ++ rest)))) =
        gap ++ ((key ++ (within ++ value)) ++ (behind ++ rest)) := by simp
    have here : m.masked = front ++ gap ++ (key ++ (within ++ (value ++ (behind ++ rest ++ back)))) := by
      simp [split]
    have first := codes_attr cut clean start here named
      (fun b mem => separate b (between b mem)) valued
    have shown := @kept_attr _ _ _ _ _ seen
      (fun n => !RawAttribute.repeatsAt (before ++ a :: as) (a.offset + n)) named
      (fun b mem => separate b (between b mem)) valued bare.1 known
    have offset : a.offset +
        (Masked.text ((key ++ (within ++ value)) ++ (behind ++ rest))).length = size := by
      rw [← offset]
      simp only [List.append_assoc]
    rw [shape] at split fits past ⊢
    generalize key ++ (within ++ value) = middle at *
    rw [Masked.kept_attribute (fun b mem => separate b (gapped b mem))
      (fun b mem => separate b (after b mem)), List.map_append]
    simp only [Masked.text_append, List.length_append] at fits past offset ⊢
    -- the bytes of the attribute and of the rest, counted from the start of the tag
    have inside (n : Nat) : size - (gap.text.length +
        (middle.text.length + (behind.text.length + rest.text.length))) + (gap.text.length + n) =
          a.offset + n := by omega
    have beyond (n : Nat) : a.offset + (middle.text.length + behind.text.length + n) =
        size - rest.text.length + n := by omega
    simp only [inside, Nat.add_assoc gap.text.length, beyond]
    rw [shown fun n less => congrArg (! ·) (RawAttribute.repeatsAt_eq (fun b mem => ?_) (by omega)
      fun b mem => ?_)]
    rotate_left
    · have passed := past b mem
      omega
    · have coming := later.ahead b mem
      omega
    have done : ∀ b ∈ before ++ [a], b.offset + rest.text.length ≤ size := by
      refine List.forall_mem_append.mpr ⟨fun b mem => ?_, List.forall_mem_singleton.mpr (by omega)⟩
      have passed := past b mem
      omega
    have next {seen' : List Bytes} (known : RawAttribute.Seen seen' (before ++ [a]))
        (refs : ∀ a ∈ RawAttribute.distinct seen' as, ∀ v, a.value = some v →
          Entity.refersToMark v.text = false) :=
      ih (show m.masked = front ++ (gap ++ (middle ++ behind)) ++ (rest ++ back) by simp [split])
        (by omega) refs bare.2 known done
    simp only [List.append_assoc, List.singleton_append] at next
    rw [RawAttribute.distinct] at refs ⊢
    split_ifs at refs ⊢ with skipped
    · exact next (known.skip skipped) refs
    · rw [List.forall_mem_cons] at refs
      rw [List.mapM_cons]
      refine (first refs.1).bind fun b codes => (next (known.push a) refs.2).bind fun bs later => ?_
      rw [← codes, ← later]
      exact (congrArg _ List.flatMap_cons).trans (List.filterMap_append ..)

theorem codes_startTag (start : Nat) {raw : Bytes} {parts : TagParts} (split : m.masked = front ++ (ps ++ back))
    (whole : ps.text = raw) (reads : (Token.startTag raw parts).IsWhole)
    (refs : (Token.startTag raw parts).decodesMark = false) :
    Answers (fun _ => True) (fun t =>
        (Node.tag t).blocks = (ps.kept (fun n => !(Token.startTag raw parts).omits n)
          front.source.length).map m.codeOf)
      (m.tag raw start 1 false parts.solidus) := by
  have firm := cut.isFirm_middle split
  obtain ⟨head, name, rest, rfl, opens, named, left, attributed⟩ := exists_attributed firm whole reads
  have size := congrArg List.length whole
  simp only [Masked.text_append, List.length_append, opens, List.length_singleton] at size
  have values : ∀ a ∈ RawAttribute.distinct [] (RawAttribute.readAll raw.length rest.text),
      ∀ v, a.value = some v → Entity.refersToMark v.text = false := by
    intro a mem v valued
    rw [left] at mem
    simp only [Token.decodesMark, List.any_eq_false] at refs
    simpa [valued] using refs a mem
  have tail : m.masked = front ++ (head ++ name) ++ (rest ++ back) := by simp [split]
  have fresh : RawAttribute.Seen [] [] := by simp [RawAttribute.Seen]
  have attrs := codes_attributes cut clean start attributed tail (by omega) values
    (fun a mem => RawAttribute.value_of_key_nil mem) fresh nofun
  have outside (n : Nat) (less : n < name.text.length) :
      (Token.startTag raw parts).omits (head.text.length + n) = false := by
    refine RawAttribute.repeatsAt_eq_false fun a mem => ?_
    have ahead := attributed.ahead a (left ▸ mem)
    rw [opens, List.length_singleton]
    omega
  have behind : raw.length - rest.text.length = head.text.length + name.text.length := by
    rw [opens, List.length_singleton]
    omega
  have kept : Masked.kept (fun n => !(Token.startTag raw parts).omits n) front.source.length
      (head ++ (name ++ rest)) = name.blocksFrom (front ++ head).source.length ++
        rest.kept (fun n => !RawAttribute.repeatsAt (RawAttribute.readAll raw.length rest.text)
          (raw.length - rest.text.length + n)) (front ++ (head ++ name)).source.length := by
    rw [Masked.kept_append, Masked.kept_append, Masked.kept_plain (by simp [opens, lt]),
      Masked.kept_all _ fun n less => by rw [outside n less]; rfl, behind, left]
    simp only [Masked.source_append, List.length_append, Nat.add_assoc, List.nil_append]
    rfl
  have text := codes_lower cut clean
    (show m.masked = front ++ head ++ (name ++ (rest ++ back)) by simp [split])
  rw [kept, List.map_append, tag]
  rw [named] at text
  refine text.bind fun name' first => ?_
  have listed := attrs
  rw [left] at listed
  refine listed.bind fun as second => ?_
  rw [← first, left]
  exact (blocks_tag ..).trans (congrArg _ second)

theorem codes_endTag (start : Nat) {raw : Bytes} (split : m.masked = front ++ (ps ++ back))
    (whole : ps.text = raw) (reads : (Token.endTag raw).IsWhole) :
    Answers (fun _ => True) (fun t =>
        (Node.tag t).blocks = (ps.kept (fun n => !(Token.endTag raw).omits n)
          front.source.length).map m.codeOf)
      (m.tag raw start 2 true false) := by
  obtain ⟨c, body, rfl, letter⟩ := reads
  have firm := cut.isFirm_middle split
  obtain ⟨head, name, rest, rfl, opens, named, left⟩ :=
    exists_name firm (show ps.text = [lt, slash] ++ c :: body from whole) (joint_slash _)
  have kept : Masked.kept (fun n => !(Token.endTag (lt :: slash :: c :: body)).omits n)
      front.source.length (head ++ (name ++ rest)) = name.blocksFrom (front ++ head).source.length := by
    have size : (List.takeWhile (!endsName ·) (c :: body)).length = name.text.length := by rw [named]
    rw [Masked.kept_append, Masked.kept_append, Masked.kept_plain (by simp [opens, lt, slash]),
      Masked.kept_all _ fun n less => ?_, Masked.kept_none _ fun n less => ?_]
    · simp only [Masked.source_append, List.length_append, List.nil_append, List.append_nil]
    · simp only [Token.omits, List.drop_succ_cons, List.drop_zero, size, opens, List.length_cons,
        List.length_nil, Bool.not_eq_false', decide_eq_true_eq]
      omega
    · simp only [Token.omits, List.drop_succ_cons, List.drop_zero, size, opens, List.length_cons,
        List.length_nil, Bool.not_eq_true', decide_eq_false_iff_not]
      omega
  have text := codes_lower cut clean
    (show m.masked = front ++ head ++ (name ++ (rest ++ back)) by simp [split])
  rw [kept, tag]
  rw [named] at text
  refine text.bind fun name' first => ?_
  rw [← first]
  exact (blocks_tag name' [] ..).trans (List.append_nil _)

/-- The code of a node is that of the blocks among the pieces of its token, but for those that the
token omits. -/
theorem codes_node? (start : Nat) {t : Token} (split : m.masked = front ++ (ps ++ back))
    (whole : ps.text = t.raw) (reads : t.IsWhole) (refs : t.decodesMark = false) :
    Answers (fun _ => True) (fun node =>
        node.toList.flatMap Node.blocks =
          (ps.kept (fun n => !t.omits n) front.source.length).map m.codeOf)
      (m.node? start t) := by
  cases t with
  | text raw shown =>
    have whole : ps.text = raw := whole
    have text := codes_pieces cut clean split (t := shown) fun ks marks =>
      reads.marked charset_opening (fun decoded => Entity.unnamed_opening (by
        simpa [Token.decodesMark, decoded] using refs)) (whole ▸ marks)
    refine text.bind fun parts codes => ?_
    have all : ps.kept (fun n => !(Token.text raw shown).omits n) front.source.length =
        ps.blocksFrom front.source.length := Masked.kept_all _ fun _ _ => rfl
    rw [all, ← codes]
    split
    · rename_i empty
      rw [List.isEmpty_iff.mp empty]
      rfl
    · exact (List.append_nil _).trans (Node.blocks_eq _)
  | startTag raw parts =>
    refine (codes_startTag cut clean start split whole reads refs).bind fun t codes => ?_
    exact (List.append_nil _).trans codes
  | endTag raw =>
    refine (codes_endTag cut clean start split whole reads).bind fun t codes => ?_
    exact (List.append_nil _).trans codes
  | comment raw text =>
    refine ((unmask_failure m.masked.blocks text).mono (fun _ _ => trivial) fun _ known => known).bind
      fun text _ => ?_
    exact (congrArg (List.map m.codeOf) (Masked.kept_none _ fun _ _ => rfl)).symm
  | doctype raw text =>
    exact (congrArg (List.map m.codeOf) (Masked.kept_none _ fun _ _ => rfl)).symm
  | unfinished raw => exact trivial

theorem codes_nodes (start : Nat) {ts : List Token} (tokenized : Tokenized back ts)
    (split : m.masked = front ++ back) (refs : ∀ t ∈ ts, t.decodesMark = false) :
    Answers (fun _ => True) (fun ns =>
        ns.flatMap Node.blocks =
          (back.kept (fun n => !omitted ts n) front.source.length).map m.codeOf)
      (m.nodes start ts) := by
  induction tokenized generalizing front start with
  | nil => rfl
  | @token ps rest t ts whole reads later ih =>
    rw [List.forall_mem_cons] at refs
    refine (codes_node? cut clean start split whole reads refs.1).bind fun node first => ?_
    refine (ih _ (show m.masked = front ++ ps ++ rest by simp [split]) refs.2).bind fun ns second => ?_
    have here : ps.kept (fun n => !omitted (t :: ts) n) front.source.length =
        ps.kept (fun n => !t.omits n) front.source.length :=
      Masked.kept_congr _ fun n less => by rw [omitted, if_pos (whole ▸ less)]
    have there (n : Nat) : omitted (t :: ts) (ps.text.length + n) = omitted ts n := by
      rw [omitted, whole, if_neg (by omega), Nat.add_sub_cancel_left]
    rw [Masked.kept_append, here, List.map_append, ← first, ← List.length_append,
      ← Masked.source_append]
    simp only [there]
    rw [← second]
    exact List.flatMap_append

end
end MaskedSource

theorem Delimiters.Encloses.inj {d : Delimiters} {inner inner' written : Bytes}
    (h : d.Encloses inner written) (h' : d.Encloses inner' written) : inner = inner' := by
  cases d with
  | brace => exact List.append_cancel_right (List.cons.inj (h.1.symm.trans h'.1)).2
  | erb => exact List.append_cancel_left (List.append_cancel_right (h.1.symm.trans h'.1))

theorem Document.parse_codes {d : Delimiters} {src : Bytes} {doc : Document} {m : Masked}
    (read : Document.parse d src = .ok doc) (masked : Masked.ofSource d src = .ok m)
    (refs : ∀ t ∈ tokens m.text, t.decodesMark = false) :
    doc.children.flatMap Node.blocks =
      (m.kept (fun n => !omitted (tokens m.text) n) 0).map (MaskedSource.codeOf ⟨src, m⟩) := by
  obtain ⟨clean, m', masked', nodes⟩ := Document.parse_ok read
  obtain rfl := Except.ok.inj (masked.symm.trans masked')
  have cut := Masked.ofSource_ok.mp masked
  have codes := MaskedSource.codes_nodes (m := ⟨src, m⟩) cut (clean_of_reservedOffset? clean) 0
    (tokenized_tokensFrom none cut.isFirm) (show m = [] ++ m from rfl) refs
  rwa [← tokens, nodes] at codes

/-- The code of a document is that of the blocks of its source, each once and in their order: all
but those in comments, in doctypes, behind the names of closing tags and in attributes that repeat
a key. -/
theorem Document.mem_codes_iff {d : Delimiters} {src : Bytes} {doc : Document} {m : Masked}
    (read : Document.parse d src = .ok doc) (masked : Masked.ofSource d src = .ok m)
    (refs : ∀ t ∈ tokens m.text, t.decodesMark = false) :
    (doc.children.flatMap Node.blocks).Pairwise (fun c c' => c.pos.offset < c'.pos.offset) ∧
    ∀ c, c ∈ doc.children.flatMap Node.blocks ↔
      ∃ front b back inner, m = front ++ .block b :: back ∧ d.Encloses inner b.written ∧
        c = ⟨(d.codeOf inner).1, (d.codeOf inner).2.trim, Pos.ofOffset src (Masked.source front).length⟩ ∧
        omitted (tokens m.text) (Masked.text front).length = false := by
  have cut := Masked.ofSource_ok.mp masked
  rw [Document.parse_codes read masked refs]
  refine ⟨?_, fun c => ⟨fun mem => ?_, ?_⟩⟩
  · refine List.pairwise_map.mpr ((Masked.kept_sorted cut.written_ne_nil _ _).imp fun less => ?_)
    exact Int.ofNat_lt.mpr less
  · obtain ⟨⟨off, b⟩, block, rfl⟩ := List.mem_map.mp mem
    obtain ⟨front, back, split, rfl, kept⟩ := Masked.mem_kept.mp block
    obtain ⟨inner, encloses, kind, source⟩ := cut.encloses (b := b) (by simp [split])
    refine ⟨front, b, back, inner, split, encloses, ?_, by simpa using kept⟩
    rw [MaskedSource.codeOf, Block.code, kind, source, Nat.zero_add]
  · rintro ⟨front, b, back, inner, split, encloses, rfl, kept⟩
    obtain ⟨inner', encloses', kind, source⟩ := cut.encloses (b := b) (by simp [split])
    cases encloses.inj encloses'
    refine List.mem_map.mpr ⟨_, Masked.mem_kept.mpr ⟨front, back, split, rfl, by simpa using kept⟩, ?_⟩
    rw [MaskedSource.codeOf, Block.code, kind, source, Nat.zero_add]

/-- Code in a key, in values, one of them repeated, in a comment, in a text and behind the name of a
closing tag. -/
def scatteredCode : Bytes :=
  utf8 "<a <%=k%>=1 b=<%=v%> B=<%=w%>><!--<%c%>--><%=t%></a <%z%>>"

theorem Document.mem_codes_iff_scattered : ∃ doc m, Document.parse .erb scatteredCode = .ok doc ∧
    Masked.ofSource .erb scatteredCode = .ok m ∧ m.blocks.length = 6 ∧
    (∀ t ∈ tokens m.text, t.decodesMark = false) ∧
    doc.children.flatMap Node.blocks =
      [⟨.expression, utf8 "k", ⟨3, 1, 4⟩⟩, ⟨.expression, utf8 "v", ⟨14, 1, 15⟩⟩,
        ⟨.expression, utf8 "t", ⟨42, 1, 43⟩⟩] ∧
    (doc.children.flatMap Node.blocks).Pairwise fun c c' => c.pos.offset < c'.pos.offset := by
  have accepted : (Document.parse .erb scatteredCode).map
      (fun doc => doc.children.flatMap Node.blocks) =
        .ok [⟨.expression, utf8 "k", ⟨3, 1, 4⟩⟩, ⟨.expression, utf8 "v", ⟨14, 1, 15⟩⟩,
          ⟨.expression, utf8 "t", ⟨42, 1, 43⟩⟩] := by
    decide +kernel
  have clean : (Masked.ofSource .erb scatteredCode).map (fun m =>
      (m.blocks.length, (tokens m.text).all (!·.decodesMark))) = .ok (6, true) := by
    decide +kernel
  cases read : Document.parse .erb scatteredCode with
  | error e => rw [read] at accepted; cases accepted
  | ok doc =>
    cases masked : Masked.ofSource .erb scatteredCode with
    | error e => rw [masked] at clean; cases clean
    | ok m =>
      rw [read] at accepted
      rw [masked] at clean
      obtain ⟨count, refs⟩ := Prod.mk.inj (Except.ok.inj clean)
      have refs : ∀ t ∈ tokens m.text, t.decodesMark = false := by simpa using refs
      exact ⟨doc, m, rfl, rfl, count, refs, Except.ok.inj accepted,
        (Document.mem_codes_iff read masked refs).1⟩

end DomTemplate
