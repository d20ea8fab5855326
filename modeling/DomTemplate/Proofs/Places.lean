import DomTemplate.Proofs.Operations
import DomTemplate.Proofs.Pieces
import DomTemplate.Proofs.Reading

/-! Where the nodes of a document stand. Tags, comments and doctypes are placed at their `<`, code
at the delimiter that opens it, and an attribute at the piece that shows the first byte of its
name. An offset of the masked text is taken back to the source piece by piece, so that it is
enough that all of these start where a piece does. -/

namespace DomTemplate
open Ascii Bytes

/-- `pos` is the place of byte `off` of `src`. Columns count from the start of the line, which
starts the source or follows a line feed. -/
structure Pos.IsAt (src : Bytes) (off : Nat) (pos : Pos) : Prop where
  inside : off < src.length
  offset : pos.offset = off
  line : pos.line = 1 + (src.take off).count lf
  col : ∃ start : Nat, start ≤ off ∧ pos.col = off - start + 1 ∧
    (start = 0 ∨ src[start - 1]? = some lf) ∧ lf ∉ (src.take off).drop start

theorem Pos.isAt_ofOffset {src : Bytes} {off : Nat} (inside : off < src.length) :
    (Pos.ofOffset src off).IsAt src off := by
  refine ⟨inside, rfl, rfl, Pos.lineStart src off, ?_⟩
  -- the text before the place is the lines before its own, and the line so far
  generalize before : (src.take off).reverse.dropWhile (· != lf) = older
  generalize line : (src.take off).reverse.takeWhile (· != lf) = newer
  have whole : src.take off = older.reverse ++ newer.reverse := by
    rw [← List.reverse_append, ← before, ← line, List.takeWhile_append_dropWhile, List.reverse_reverse]
  have size : (src.take off).length = off := List.length_take_of_le (Nat.le_of_lt inside)
  have start : Pos.lineStart src off = older.length := by
    rw [Pos.lineStart, line, whole]
    simp
  rw [start]
  refine ⟨?_, by rw [Pos.ofOffset, start], ?_, ?_⟩
  · rw [← size, whole]
    simp
  · cases older with
    | nil => exact .inl rfl
    | cons c older =>
      have head : ((src.take off).reverse.dropWhile (· != lf)).head? = some c := by rw [before]; rfl
      have feed : c = lf := by simpa using dropWhile_stops head
      refine .inr ?_
      have found : (src.take off)[older.length]? = some lf := by
        rw [whole, feed]
        simp
      rw [List.getElem?_take] at found
      split at found
      · simpa using found
      · cases found
  · rw [whole, List.drop_left' (by simp), ← line]
    intro mem
    exact absurd (List.mem_takeWhile_imp (List.mem_reverse.mp mem)) (by simp)

/-- `pos` is the place of a byte of `src`, and not at the end of its line. -/
def Pos.IsShown (src : Bytes) (pos : Pos) : Prop :=
  ∃ off b, pos.IsAt src off ∧ src[off]? = some b ∧ IsInk b

theorem Pos.isShown_split {front rest : Bytes} {b : UInt8} (ink : IsInk b) :
    (Pos.ofOffset (front ++ b :: rest) front.length).IsShown (front ++ b :: rest) :=
  ⟨front.length, b, Pos.isAt_ofOffset (by simp), by simp, ink⟩

/-- The source cannot be read from a place on that is not at the end of a line. -/
def Failure.IsUnreadable (src : Bytes) (f : Failure) : Prop :=
  ∃ pos fault, f = refused (.unreadable pos fault) ∧ pos.IsShown src

def Piece.block? : Piece → Option Block
  | .block b => some b
  | _ => none

theorem Piece.block?_eq_some {p : Piece} {b : Block} : p.block? = some b ↔ p = .block b := by
  cases p <;> simp [Piece.block?]

theorem Masked.blocksFrom_cons (start : Nat) (p : Piece) (m : Masked) :
    Masked.blocksFrom start (p :: m) =
      (p.block?.map (start, ·)).toList ++ m.blocksFrom (start + p.written.length) := by
  cases p <;> rfl

theorem Masked.mem_blocksFrom {m : Masked} {start off : Nat} {b : Block} :
    (off, b) ∈ m.blocksFrom start ↔
      ∃ front back, m = front ++ .block b :: back ∧ off = start + (Masked.source front).length := by
  induction m generalizing start with
  | nil => simp [Masked.blocksFrom]
  | cons p m ih =>
    rw [Masked.blocksFrom_cons, List.mem_append, ih]
    constructor
    · rintro (here | ⟨front, back, rfl, rfl⟩)
      · obtain ⟨b', found, same⟩ := Option.map_eq_some_iff.mp (Option.mem_toList.mp here)
        cases same
        exact ⟨[], m, by rw [Piece.block?_eq_some.mp found]; rfl, rfl⟩
      · exact ⟨p :: front, back, rfl, by simp [Masked.source_cons, Nat.add_assoc]⟩
    · rintro ⟨front, back, split, rfl⟩
      rcases List.cons_eq_append_iff.mp split with ⟨rfl, same⟩ | ⟨front, rfl, rfl⟩
      · cases same
        exact .inl (by simp [Piece.block?, Masked.source])
      · exact .inr ⟨front, back, rfl, by simp [Masked.source_cons, Nat.add_assoc]⟩

/-- The code of each block is what stands between its delimiters. -/
theorem Cut.encloses {d : Delimiters} {state : MaskState} {context : BraceContext} {s : Bytes}
    {m : Masked} (cut : Cut d state context s m) {b : Block} (mem : .block b ∈ m) :
    ∃ inner, d.Encloses inner b.written ∧ b.kind = (d.codeOf inner).1 ∧
      b.source = (d.codeOf inner).2.trim := by
  induction cut with
  | nil => cases mem
  | escape after ih | byte plain after ih => exact ih (by simpa using mem)
  | block encloses nonempty allowed after ih =>
    rcases List.mem_cons.mp mem with same | later
    · cases same
      exact ⟨_, encloses, rfl, rfl⟩
    · exact ih later

/-- The code of a block at offset `off`. -/
def Block.code (b : Block) (src : Bytes) (off : Nat) : Code := ⟨b.kind, b.source, Pos.ofOffset src off⟩

/-- The code in a text is that of blocks. -/
theorem expand_codes (src : Bytes) (blocks : List (Nat × Block)) (s : Bytes) :
    Answers (fun f => f.isOverMark = true)
      (fun parts => ∀ c, .code c ∈ parts → ∃ off b, (off, b) ∈ blocks ∧ c = b.code src off)
      (expand src blocks s) := by
  fun_induction expand src blocks s with
  | case1 s empty => exact fun c mem => absurd mem List.not_mem_nil
  | case2 => simp [Answers]
  | case3 => rfl
  | case4 s text n first => simpa [Answers, Failure.isOverMark] using firstMark_negative first
  | case5 s text head off b rest first shorter ih =>
    refine ih.map fun parts later c mem => ?_
    have cases : c = b.code src off ∨ .code c ∈ parts := by
      dsimp only at mem
      split at mem <;> simpa [Block.code] using mem
    exact cases.elim (fun same => ⟨off, b, (firstMark_block first).1, same⟩) (later c)

theorem Answers.self {α : Type} {accepts : Failure → Prop} {good : α → Prop} {r : Except Failure α}
    (h : Answers accepts good r) : Answers accepts (fun a => r = .ok a ∧ good a) r := by
  cases r with
  | ok a => exact ⟨rfl, h⟩
  | error f => exact h

def Node.place? : Node → Option Pos
  | tag t => some t.pos
  | comment _ pos | doctype _ pos => some pos
  | absent | text _ | code _ | raw _ | misplaced _ => none

/-- The tokens with the offsets at which they start. -/
def Markup.placed (start : Nat) : List Token → List (Nat × Token)
  | [] => []
  | t :: ts => (start, t) :: placed (start + t.raw.length) ts

theorem RawAttribute.key_ne_nil_of_mem_distinct {seen : List Bytes} {as : List RawAttribute}
    {a : RawAttribute} (h : a ∈ distinct seen as) : a.key ≠ [] := by
  fun_induction distinct seen as with
  | case1 => cases h
  | case2 seen b as known ih => exact ih h
  | case3 seen b as fresh ih =>
    rcases List.mem_cons.mp h with rfl | later
    · rintro empty
      simp [empty] at fresh
    · exact ih later

/-- A key starts where a piece does. -/
theorem Markup.Attributed.piece {size : Nat} {ps : Masked} {as : List RawAttribute}
    (h : Attributed size ps as) {a : RawAttribute} (mem : a ∈ as) (named : a.key ≠ []) :
    ∃ front p back, ps = front ++ p :: back ∧
      a.offset + (Masked.text (p :: back)).length = size ∧ a.key <+: Masked.text (p :: back) := by
  induction h with
  | close => cases mem
  | @attr gap key within value behind rest b bs before keyed between valued after offset later ih =>
    rcases List.mem_cons.mp mem with rfl | mem
    · cases key with
      | nil => exact absurd keyed.symm named
      | cons p key =>
        refine ⟨gap, p, key ++ (within ++ (value ++ (behind ++ rest))), rfl, offset, ?_⟩
        rw [← keyed, ← List.cons_append, Masked.text_append]
        exact List.prefix_append _ _
    · obtain ⟨front, p, back, rfl, here, starts⟩ := ih mem
      exact ⟨gap ++ (key ++ (within ++ (value ++ (behind ++ front)))), p, back, by simp, here, starts⟩

namespace MaskedSource

/-- The code `c` is that of a block, and placed at its first delimiter. -/
def PlacesCode (d : Delimiters) (m : MaskedSource) (c : Code) : Prop :=
  ∃ front b back inner, m.masked = front ++ .block b :: back ∧ d.Encloses inner b.written ∧
    c.kind = (d.codeOf inner).1 ∧ c.source = (d.codeOf inner).2.trim ∧
    c.pos.IsAt m.src (Masked.source front).length

/-- The attribute `a` is one of the tag `raw`, which starts at `start`, and placed at the piece that
shows the first byte of its key. -/
def PlacesAttribute (m : MaskedSource) (start : Nat) (raw : Bytes) (a : Attribute) : Prop :=
  ∃ r front p back, r ∈ RawAttribute.ofTag raw ((raw.drop 1).dropWhile (!Markup.endsName ·)) ∧
    m.attr start r = .ok a ∧ m.masked = front ++ p :: back ∧
    (Masked.text front).length = start + r.offset ∧ r.key ≠ [] ∧ r.key <+: Masked.text (p :: back) ∧
    a.pos.IsAt m.src (Masked.source front).length

/-- The node `n` is read from a token that starts where a piece does. One with a place has it at
the `<` of its token. -/
def Places (d : Delimiters) (m : MaskedSource) (n : Node) : Prop :=
  ∃ front back t, m.masked = front ++ back ∧
    ((Masked.text front).length, t) ∈ Markup.placed 0 (Markup.tokens m.masked.text) ∧
    m.node? (Masked.text front).length t = .ok (some n) ∧
    (∀ pos, n.place? = some pos →
      back.head? = some (.byte lt) ∧ pos.IsAt m.src (Masked.source front).length) ∧
    (∀ c ∈ n.blocks, m.PlacesCode d c) ∧
    ∀ a ∈ n.attributes, ∃ raw parts, t = .startTag raw parts ∧
      m.PlacesAttribute (Masked.text front).length raw a

variable {d : Delimiters} {m : MaskedSource} {front back : Masked}

section
variable (cut : Cut d {} .markup m.src m.masked)
include cut

theorem source_lt {p : Piece} (split : m.masked = front ++ p :: back) :
    front.source.length < m.src.length := by
  have written := List.length_pos_iff.mpr (cut.written_ne_nil p (by simp [split]))
  have source := congrArg List.length cut.source_eq
  rw [split, Masked.source_append, Masked.source_cons, List.length_append, List.length_append] at source
  omega

theorem isAt_piece {p : Piece} (split : m.masked = front ++ p :: back) :
    (m.pos front.text.length).IsAt m.src front.source.length := by
  have firm : p.IsFirm := cut.isFirm p (by simp [split])
  rw [pos, split, Masked.sourceOffset_piece firm]
  exact Pos.isAt_ofOffset (source_lt cut split)

theorem isShown_piece {p : Piece} (split : m.masked = front ++ p :: back) {pos : Pos}
    (at_ : pos.IsAt m.src front.source.length) {b : UInt8} {rest : Bytes} (written : p.written = b :: rest)
    (ink : IsInk b) : pos.IsShown m.src := by
  refine ⟨_, b, at_, ?_, ink⟩
  rw [← cut.source_eq, split, Masked.source_append, Masked.source_cons, written]
  simp

theorem expand_places (s : Bytes) :
    Answers (fun f => f.isOverMark = true) (fun parts => ∀ c, .code c ∈ parts → m.PlacesCode d c)
      (m.expand s) := by
  refine (expand_codes m.src m.masked.blocks s).mono (fun _ failed => failed) fun parts known c mem => ?_
  obtain ⟨off, b, block, rfl⟩ := known c mem
  obtain ⟨front, back, split, rfl⟩ := Masked.mem_blocksFrom.mp block
  obtain ⟨inner, encloses, kind, source⟩ := cut.encloses (b := b) (by simp [split])
  refine ⟨front, b, back, inner, split, encloses, kind, source, ?_⟩
  rw [Block.code, Nat.zero_add]
  exact Pos.isAt_ofOffset (source_lt cut split)

/-- The code of an attribute. -/
theorem attr_places (start : Nat) (r : RawAttribute) :
    Answers (fun f => f.isOverMark = true)
      (fun a => a.pos = m.pos (start + r.offset) ∧
        ∀ c, .code c ∈ a.name.getD [] ++ a.value.elim [] AttrValue.parts → m.PlacesCode d c)
      (m.attr start r) := by
  refine (expand_places cut _).bind fun name named => ?_
  have valued : Answers (fun f => f.isOverMark = true)
      (fun value => ∀ v : AttrValue, value = some v → ∀ c, .code c ∈ v.parts → m.PlacesCode d c)
      (r.value.mapM fun v => do
        return { quote := v.quote, parts := ← m.expand (Markup.Entity.decode v.text) }) :=
    Answers.optionMapM fun v _ => (expand_places cut _).bind fun parts known => known
  refine valued.bind fun value known => ⟨rfl, fun c mem => ?_⟩
  rcases List.mem_append.mp mem with inName | inValue
  · exact named c inName
  · cases value with
    | none => cases inValue
    | some v => exact known v rfl c inValue

omit cut in
/-- A tag without attributes has no list of them. -/
theorem attributes_tag (name : List Part) (attrs : List Attribute) (closing solidus : Bool)
    (pos : Pos) : (Node.tag ⟨some name, if attrs.isEmpty then none else some (attrs.map some), closing,
      solidus, pos⟩).attributes = attrs := by
  cases attrs with
  | nil => rfl
  | cons a attrs => simp [Node.attributes]

theorem tag_places {raw : Bytes} {start opener : Nat} {closing solidus : Bool}
    (attributes : closing = false → opener = 1 ∧
      ∀ r ∈ RawAttribute.ofTag raw ((raw.drop 1).dropWhile (!Markup.endsName ·)),
        ∃ front p back, m.masked = front ++ p :: back ∧
          (Masked.text front).length = start + r.offset ∧ r.key ≠ [] ∧
          r.key <+: Masked.text (p :: back)) :
    Answers (fun f => f.isOverMark = true)
      (fun t => t.pos = m.pos start ∧ (∀ c ∈ (Node.tag t).blocks, m.PlacesCode d c) ∧
        ∀ a ∈ (Node.tag t).attributes, closing = false ∧ m.PlacesAttribute start raw a)
      (m.tag raw start opener closing solidus) := by
  rw [tag]
  refine (expand_places cut _).bind fun name named => ?_
  have finished (attrs : List Attribute)
      (known : ∀ a ∈ attrs, (closing = false ∧ m.PlacesAttribute start raw a) ∧
        ∀ c, .code c ∈ a.name.getD [] ++ a.value.elim [] AttrValue.parts → m.PlacesCode d c) :
      let t : Tag := ⟨some name, if attrs.isEmpty then none else some (attrs.map some), closing,
        solidus, m.pos start⟩
      t.pos = m.pos start ∧ (∀ c ∈ (Node.tag t).blocks, m.PlacesCode d c) ∧
        ∀ a ∈ (Node.tag t).attributes, closing = false ∧ m.PlacesAttribute start raw a := by
    intro t
    have listed : (Node.tag t).attributes = attrs := attributes_tag ..
    refine ⟨rfl, fun c mem => ?_, fun a mem => (known a (listed ▸ mem)).1⟩
    rw [Node.mem_blocks, Node.parts, listed, List.mem_append] at mem
    rcases mem with inName | inAttribute
    · exact named c inName
    · obtain ⟨a, mem, here⟩ := List.mem_flatMap.mp inAttribute
      exact (known a mem).2 c here
  cases closing with
  | true => exact finished [] (by simp)
  | false =>
    obtain ⟨rfl, pieces⟩ := attributes rfl
    refine Answers.bind (Answers.mapM fun r mem => ?_) finished
    refine (attr_places cut start r).self.mono (fun _ failed => failed) ?_
    rintro a ⟨result, place, codes⟩
    obtain ⟨front, p, back, split, here, nonempty, key⟩ := pieces r mem
    refine ⟨⟨rfl, r, front, p, back, mem, result, split, here, nonempty, key, ?_⟩, codes⟩
    rw [place, ← here]
    exact isAt_piece cut split

/-- The attributes of a start tag start where pieces do. -/
theorem startTag_pieces {ps : Masked} {raw : Bytes} {parts : Markup.TagParts}
    (split : m.masked = front ++ (ps ++ back)) (whole : ps.text = raw)
    (reads : (Markup.Token.startTag raw parts).IsWhole) :
    ∀ r ∈ RawAttribute.ofTag raw ((raw.drop 1).dropWhile (!Markup.endsName ·)),
      ∃ front' p back', m.masked = front' ++ p :: back' ∧
        (Masked.text front').length = front.text.length + r.offset ∧ r.key ≠ [] ∧
        r.key <+: Masked.text (p :: back') := by
  intro r mem
  have firm := cut.isFirm_middle split
  obtain ⟨head, name, rest, rfl, -, -, left, attributed⟩ := Markup.exists_attributed firm whole reads
  have listed : r ∈ RawAttribute.readAll raw.length rest.text := by
    rw [left]
    exact RawAttribute.mem_of_mem_distinct mem
  have nonempty := RawAttribute.key_ne_nil_of_mem_distinct mem
  obtain ⟨front', p, back', rfl, here, starts⟩ := attributed.piece listed nonempty
  refine ⟨front ++ (head ++ (name ++ front')), p, back' ++ back, by simp [split], ?_, nonempty, ?_⟩
  · rw [← whole] at here
    simp only [Masked.text_append, List.length_append] at here ⊢
    omega
  · rw [← List.cons_append, Masked.text_append]
    exact starts.trans (List.prefix_append _ _)

/-- The node of a token is placed where the pieces of the token start. -/
theorem node?_places {ps : Masked} {t : Markup.Token} (split : m.masked = front ++ (ps ++ back))
    (whole : ps.text = t.raw) (reads : t.IsWhole) :
    Answers (fun f => f.IsUnreadable m.src ∨ f.isOverMark = true)
      (fun node => ∀ n, node = some n →
        (∀ pos, n.place? = some pos →
          ps.head? = some (.byte lt) ∧ pos.IsAt m.src front.source.length) ∧
        (∀ c ∈ n.blocks, m.PlacesCode d c) ∧
        ∀ a ∈ n.attributes, ∃ raw parts, t = .startTag raw parts ∧
          m.PlacesAttribute front.text.length raw a)
      (m.node? front.text.length t) := by
  have firm := cut.isFirm_middle split
  have opened (markup : ∀ raw shown, t ≠ .text raw shown) :
      ps.head? = some (.byte lt) ∧ (m.pos front.text.length).IsAt m.src front.source.length := by
    obtain ⟨rest, rfl⟩ := reads.angle firm whole markup
    exact ⟨rfl, isAt_piece cut split⟩
  cases t with
  | text raw shown =>
    refine ((expand_places cut shown).mono (fun _ => .inr) fun _ known => known).bind
      fun parts known n same => ?_
    split at same <;> cases same
    exact ⟨nofun, fun c mem => known c (Node.mem_blocks.mp mem), nofun⟩
  | startTag raw parts =>
    have tag : Answers _ _ (m.tag raw front.text.length 1 false parts.solidus) :=
      tag_places cut fun _ => ⟨rfl, startTag_pieces cut split whole reads⟩
    refine (tag.mono (fun _ => .inr) fun _ known => known).bind fun t known => ?_
    obtain ⟨place, codes, attributes⟩ := known
    rintro n ⟨⟩
    refine ⟨?_, codes, fun a mem => ⟨raw, parts, rfl, (attributes a mem).2⟩⟩
    rintro pos ⟨⟩
    exact place ▸ opened nofun
  | endTag raw =>
    have tag : Answers _ _ (m.tag raw front.text.length 2 true false) := tag_places cut nofun
    refine (tag.mono (fun _ => .inr) fun _ known => known).bind fun t known => ?_
    obtain ⟨place, codes, attributes⟩ := known
    rintro n ⟨⟩
    refine ⟨?_, codes, fun a mem => absurd (attributes a mem).1 (by decide)⟩
    rintro pos ⟨⟩
    exact place ▸ opened nofun
  | comment raw text =>
    refine ((unmask_failure m.masked.blocks text).mono (fun _ => .inr) fun _ known => known).bind
      fun text _ => ?_
    rintro n ⟨⟩
    refine ⟨?_, nofun, nofun⟩
    rintro pos ⟨⟩
    exact opened nofun
  | doctype raw text =>
    rintro n ⟨⟩
    refine ⟨?_, nofun, nofun⟩
    rintro pos ⟨⟩
    exact opened nofun
  | unfinished raw =>
    obtain ⟨rest, rfl⟩ := reads.angle firm whole nofun
    exact .inl ⟨_, _, rfl, isShown_piece cut split (isAt_piece cut split) rfl (by decide)⟩

/-- The nodes of the tokens from `front` on are placed behind it, in order. -/
theorem nodes_places {ts : List Markup.Token} (tokenized : Markup.Tokenized back ts)
    (split : m.masked = front ++ back)
    (listed : ∀ t ∈ Markup.placed front.text.length ts,
      t ∈ Markup.placed 0 (Markup.tokens m.masked.text)) :
    Answers (fun f => f.IsUnreadable m.src ∨ f.isOverMark = true)
      (fun ns => (∀ n ∈ ns, m.Places d n) ∧
        (∀ pos ∈ ns.filterMap Node.place?, (front.source.length : Int) ≤ pos.offset) ∧
        (ns.filterMap Node.place?).Pairwise fun p q => p.offset < q.offset)
      (m.nodes front.text.length ts) := by
  induction tokenized generalizing front with
  | nil => exact ⟨nofun, nofun, .nil⟩
  | @token ps rest t ts whole reads later ih =>
    rw [Markup.placed, List.forall_mem_cons, ← whole, ← List.length_append, ← Masked.text_append]
      at listed
    have next := ih (show m.masked = front ++ ps ++ rest by simp [split]) listed.2
    rw [nodes, ← whole, ← List.length_append, ← Masked.text_append]
    refine (node?_places cut split whole reads).self.bind fun node first => ?_
    refine next.bind fun ns known => ?_
    obtain ⟨places, behind, increasing⟩ := known
    rw [Masked.source_append, List.length_append] at behind
    have after (pos : Pos) (mem : pos ∈ ns.filterMap Node.place?) :
        (front.source.length : Int) ≤ pos.offset := by
      have offset := behind pos mem
      omega
    cases node with
    | none => exact ⟨places, after, increasing⟩
    | some n =>
      obtain ⟨result, known⟩ := first
      obtain ⟨placed, codes, attributes⟩ := known n rfl
      have here : m.Places d n := by
        refine ⟨front, ps ++ rest, t, split, listed.1, result, fun pos same => ?_, codes, attributes⟩
        obtain ⟨angle, at_⟩ := placed pos same
        exact ⟨by rw [List.head?_append, angle]; rfl, at_⟩
      refine ⟨List.forall_mem_cons.mpr ⟨here, places⟩, ?_⟩
      rw [Option.toList_some, List.singleton_append, List.filterMap_cons]
      cases place : n.place? with
      | none => exact ⟨after, increasing⟩
      | some pos =>
        obtain ⟨angle, at_⟩ := placed pos place
        obtain ⟨ps', rfl⟩ := List.head?_eq_some_iff.mp angle
        refine ⟨List.forall_mem_cons.mpr ⟨Int.le_of_eq at_.offset.symm, after⟩,
          List.pairwise_cons.mpr ⟨fun next mem => ?_, increasing⟩⟩
        have offset := behind next mem
        rw [Masked.source_cons, List.length_append, Piece.written, List.length_singleton] at offset
        rw [at_.offset]
        omega

end
end MaskedSource

theorem Document.parse_placed (d : Delimiters) (src : Bytes) :
    Answers (fun f => f.IsUnreadable src ∨ f.isOverMark = true)
      (fun doc : Document => ∃ m, Masked.ofSource d src = .ok m ∧
        (∀ n ∈ doc.children, MaskedSource.Places d ⟨src, m⟩ n) ∧
        (doc.children.filterMap Node.place?).Pairwise fun p q => p.offset < q.offset)
      (Document.parse d src) := by
  rw [Document.parse]
  cases reserved : reservedOffset? src with
  | some off =>
    obtain ⟨front, rest, rfl, rfl⟩ := reservedOffset?_split reserved
    exact .inl ⟨_, _, rfl, Pos.isShown_split (by decide)⟩
  | none =>
    cases masked : Masked.ofSource d src with
    | error fault =>
      obtain ⟨front, b, rest, rfl, offset, ink⟩ := Masked.ofSource_error masked
      exact .inl ⟨_, _, rfl, offset ▸ Pos.isShown_split ink⟩
    | ok m =>
      have cut := Masked.ofSource_ok.mp masked
      have tokenized := Markup.tokenized_tokensFrom none cut.isFirm
      have placed := MaskedSource.nodes_places (m := ⟨src, m⟩) cut tokenized (show m = [] ++ m from rfl)
        fun _ mem => mem
      exact placed.map fun ns known => ⟨m, rfl, known.1, known.2.2⟩

end DomTemplate
