import DomTemplate.Proofs.FileTrees
import DomTemplate.Proofs.MountId

/-! Two pages that run one program. A page for a script loader holds the view model class as it is, but
indented. A page that fetches an interpreter puts the class between backticks, where a backslash, a
backtick and the opener of an interpolation are escaped, and indents it after that. What the
interpreter is given, once the string is read, is the program of the other page, two blanks further
to the right. -/

namespace DomTemplate
open Ascii Bytes

section Lines
variable {f g : Bytes → Bytes} {s t : Bytes}

/-- A text changed line by line. -/
def mapLines (f : Bytes → Bytes) (s : Bytes) : Bytes :=
  Bytes.join [lf] ((splitOn lf s).map f)

/-- At most `n` bytes less in front of every line. -/
def outdentLines (n : Nat) (s : Bytes) : Bytes := mapLines (List.drop n) s

theorem indentLines_eq_mapLines (n : Nat) (s : Bytes) :
    indentLines n s = mapLines (indentLine n) s := rfl

theorem mapLines_line (line : lf ∉ s) : mapLines f s = f s := by
  rw [mapLines, splitOn_of_not_mem line, List.map_singleton, join_cons]
  simp

theorem join_append (sep : Bytes) {front back : List Bytes} (left : front ≠ []) (right : back ≠ []) :
    Bytes.join sep (front ++ back) = Bytes.join sep front ++ sep ++ Bytes.join sep back := by
  obtain ⟨a, front, rfl⟩ := List.exists_cons_of_ne_nil left
  obtain ⟨b, back, rfl⟩ := List.exists_cons_of_ne_nil right
  simp [join_cons]

theorem mapLines_append (f : Bytes → Bytes) (s t : Bytes) :
    mapLines f (s ++ lf :: t) = mapLines f s ++ lf :: mapLines f t := by
  have some_line (s : Bytes) : (splitOn lf s).map f ≠ [] := by simp [splitOn_ne_nil]
  rw [mapLines, splitOn_append, List.map_append, join_append _ (some_line s) (some_line t)]
  simp [mapLines]

/-- A text changed twice, where the first change makes no further lines. -/
theorem mapLines_mapLines (inside : ∀ line, lf ∉ line → lf ∉ f line) :
    mapLines g (mapLines f s) = mapLines (g ∘ f) s := by
  have whole : ∀ line ∈ (splitOn lf s).map f, lf ∉ line := by
    intro line mem
    obtain ⟨piece, here, rfl⟩ := List.mem_map.mp mem
    exact inside piece (not_mem_of_mem_splitOn here)
  have split : splitOn lf (mapLines f s) = (splitOn lf s).map f :=
    splitOn_join (by simp [splitOn_ne_nil]) whole
  rw [mapLines, split, List.map_map, mapLines]

theorem mapLines_id (s : Bytes) : mapLines id s = s := by
  induction s with
  | nil => rfl
  | cons c s ih =>
    obtain ⟨piece, pieces, split⟩ := List.exists_cons_of_ne_nil (splitOn_ne_nil lf s)
    rw [mapLines, List.map_id] at ih ⊢
    rw [split, join_cons] at ih
    rw [splitOn, split]
    split_ifs with line
    · rw [join_cons, line, ← ih]
      rfl
    · rw [join_cons, ← ih]
      rfl

theorem lf_not_mem_indentLine {line : Bytes} (n : Nat) (whole : lf ∉ line) :
    lf ∉ indentLine n line := by
  have blanks : lf ∉ Bytes.replicate n space := fun mem =>
    absurd (List.eq_of_mem_replicate mem) (by decide)
  rw [indentLine]
  split
  · exact whole
  · exact List.not_mem_append blanks whole

/-- Indented lines are indented further. -/
theorem indentLines_indentLines (m n : Nat) (s : Bytes) :
    indentLines m (indentLines n s) = indentLines (m + n) s := by
  have further : indentLine m ∘ indentLine n = indentLine (m + n) := by
    funext line
    cases line with
    | nil => rfl
    | cons c line => simp [indentLine, Bytes.replicate, ← List.append_assoc]
  simp only [indentLines_eq_mapLines]
  rw [mapLines_mapLines fun _ => lf_not_mem_indentLine n, further]

/-- What was indented is found again. -/
theorem outdentLines_indentLines (n : Nat) (s : Bytes) : outdentLines n (indentLines n s) = s := by
  have back : List.drop n ∘ indentLine n = id := by
    funext line
    cases line with
    | nil => simp [indentLine]
    | cons c line => simp [indentLine, Bytes.replicate]
  rw [outdentLines, indentLines_eq_mapLines, mapLines_mapLines fun _ => lf_not_mem_indentLine n, back,
    mapLines_id]

end Lines

/-- A string between backticks, read after the first of them up to the next one that is not escaped:
what stands in it, and what follows it. -/
def templateSpan? : Bytes → Option (Bytes × Bytes)
  | [] => none
  | [b] => if b = backtick then some ([], []) else none
  | b :: c :: s =>
    if b = backtick then some ([], c :: s)
    else if b = backslash then
      (templateSpan? s).map fun (inside, after) => (b :: c :: inside, after)
    else (templateSpan? (c :: s)).map fun (inside, after) => (b :: inside, after)

/-- What a page passes to the interpreter between backticks, and what follows it. -/
def evaluated? (page : Bytes) : Option (Bytes × Bytes) :=
  (cut? (utf8 "vm.eval(" ++ [backtick]) page).bind fun (_, literal) => templateSpan? literal

theorem templateSpan?_plain {b : UInt8} (other : b ≠ backtick ∧ b ≠ backslash) {s inside after : Bytes}
    (h : templateSpan? s = some (inside, after)) :
    templateSpan? (b :: s) = some (b :: inside, after) := by
  cases s with
  | nil => cases h
  | cons c s => rw [templateSpan?, if_neg other.1, if_neg other.2, h]; rfl

theorem templateSpan?_escape (c : UInt8) {s inside after : Bytes}
    (h : templateSpan? s = some (inside, after)) :
    templateSpan? (backslash :: c :: s) = some (backslash :: c :: inside, after) := by
  rw [templateSpan?, if_neg (by decide), if_pos rfl, h]
  rfl

/-- Escaped text holds no backtick that would end it early. -/
theorem templateSpan?_replaced {s t : Bytes} (h : Rule.Replaced backtickRules s t) (after : Bytes) :
    templateSpan? (t ++ backtick :: after) = some (t, after) := by
  induction h with
  | nil => cases after <;> rfl
  | @keep c s t unruled rest ih =>
    have unlike {b : UInt8} (ruled : ∃ rule ∈ backtickRules, rule.pattern = [b]) : c ≠ b := by
      rintro rfl
      obtain ⟨rule, mem, pattern⟩ := ruled
      exact unruled rule mem ⟨s, by rw [pattern]; rfl⟩
    exact templateSpan?_plain
      ⟨unlike writes_backtickRules.closer, unlike writes_backtickRules.backslash⟩ ih
  | @apply rule s t mem rest ih =>
    rw [backtickRules_eq] at mem
    simp only [List.mem_cons, List.not_mem_nil, or_false] at mem
    obtain rfl | rfl | rfl := mem
    · exact templateSpan?_escape _ ih
    · exact templateSpan?_escape _ ih
    · exact templateSpan?_escape _ (templateSpan?_plain (by decide) ih)

/-- A separator ends where its last byte occurs first. -/
theorem cut?_first {p front : Bytes} {b : UInt8} (absent : b ∉ front ++ p) (rest : Bytes) :
    cut? (p ++ [b]) (front ++ p ++ b :: rest) = some (front, rest) := by
  induction front with
  | nil =>
    have whole : [] ++ p ++ b :: rest = p ++ [b] ++ rest := by simp
    rw [whole]
    cases found : p ++ [b] ++ rest with
    | nil => simp at found
    | cons c s => rw [cut?, ← found, dropPrefix?_eq_some.mpr rfl]
  | cons c front ih =>
    rw [List.cons_append, List.mem_cons, not_or] at absent
    have later : dropPrefix? (p ++ [b]) (c :: (front ++ p ++ b :: rest)) = none := by
      by_contra early
      obtain ⟨t, split⟩ := Option.ne_none_iff_exists'.mp early
      have begins : p ++ [b] <+: c :: (front ++ p ++ b :: rest) :=
        ⟨t, (dropPrefix?_eq_some.mp split).symm⟩
      have sooner : p ++ [b] <+: c :: (front ++ p) :=
        List.prefix_of_prefix_length_le begins ⟨b :: rest, by simp⟩ (by simp)
      have mem : b ∈ c :: (front ++ p) := sooner.subset (by simp)
      rw [List.mem_cons] at mem
      exact mem.elim absent.1 absent.2
    rw [List.cons_append, List.cons_append, cut?, later, ih absent.2]
    rfl

theorem suffix_textLines {lines : List Bytes} {last : Bytes} (h : lines.getLast? = some last) :
    last <:+ textLines lines := by
  obtain ⟨front, rfl⟩ := List.getLast?_eq_some_iff.mp h
  by_cases empty : front = []
  · rw [empty, textLines, List.nil_append, join_cons]
    simp
  · rw [textLines, join_append _ empty (List.cons_ne_nil _ _), join_cons, List.flatMap_nil, List.append_nil]
    exact List.suffix_append _ _

/-- The string between backticks is the argument of the call, and all of it. -/
theorem evaluated?_umdItems (d : PageData) :
    ∃ after, evaluated? (Page.html d.umdItems).render = some (d.umdProgram, utf8 ")" ++ after) := by
  obtain ⟨front, call⟩ : utf8 "vm.eval(" <:+ PageData.umdPrelude := by
    have line : utf8 "vm.eval(" <:+ utf8 "      vm.eval(" := ⟨utf8 "      ", by decide⟩
    exact (line.trans (suffix_textLines rfl)).trans (List.suffix_append _ _)
  obtain ⟨ending, close⟩ : utf8 ")" <+: PageData.umdEnd := ⟨_, rfl⟩
  let markup := utf8 "<html>" ++ utf8 "\n  " ++ PageData.umdLoader ++ utf8 "\n  " ++ utf8 "<script>"
  let body := utf8 "</script>" ++ (PageItem.bodyItems d.rootId).flatMap PageItem.render
  have rendered : (Page.html d.umdItems).render = markup ++ front ++ utf8 "vm.eval(" ++
      backtick :: (d.umdProgram ++ backtick :: (utf8 ")" ++ (ending ++ body))) := by
    rw [Page.render, PageData.umdItems, ← call, ← close]
    simp [PageItem.scriptItems, PageItem.render, markup, body]
  have early : backtick ∉ markup ++ front ++ utf8 "vm.eval(" := by
    have loader : backtick ∉ PageData.umdLoader := by
      rw [PageData.umdLoader, utf8_append, utf8_ofList, utf8_ofList]
      decide
    have plain : backtick ∉ utf8 "<html>" ∧ backtick ∉ utf8 "\n  " ∧ backtick ∉ utf8 "<script>" := by
      decide
    rw [List.append_assoc, call]
    simp only [markup, List.mem_append, not_or]
    exact ⟨⟨⟨⟨⟨plain.1, plain.2.1⟩, loader⟩, plain.2.1⟩, plain.2.2⟩, not_mem_umdPrelude (.inr rfl)⟩
  refine ⟨ending ++ body, ?_⟩
  rw [evaluated?, rendered, cut?_first early, Option.bind_some]
  dsimp only
  rw [templateSpan?_replaced (replaced_umdProgram d)]

namespace PageData

/-- The texts that a page is made of. -/
def fields (d : PageData) : List Bytes := [d.viewModel, d.rootId, d.rootRef, d.document, d.body]

theorem cr_not_mem_withDefaults {d : PageData} (lines : ∀ field ∈ d.fields, cr ∉ field) :
    ∀ field ∈ d.withDefaults.fields, cr ∉ field := by
  have given {field other : Bytes} (h : cr ∉ field) (h' : cr ∉ other) :
      cr ∉ if field.isEmpty then other else field := by
    split
    · exact h'
    · exact h
  simp only [fields, List.forall_mem_cons] at lines ⊢
  obtain ⟨viewModel, rootId, rootRef, document, body, -⟩ := lines
  exact ⟨given viewModel (by decide), given rootId (by decide), given rootRef (by decide),
    given document (by decide), body, by simp⟩

end PageData

theorem not_mem_join {b c : UInt8} {lines : List Bytes} (unlike : b ≠ c)
    (each : ∀ line ∈ lines, b ∉ line) : b ∉ Bytes.join [c] lines := by
  cases lines with
  | nil => exact List.not_mem_nil
  | cons line lines =>
    rw [List.forall_mem_cons] at each
    rw [join_cons]
    simpa [unlike, each.1] using each.2

theorem cr_not_mem_indentLines (n : Nat) {s : Bytes} (h : cr ∉ s) : cr ∉ indentLines n s := by
  refine not_mem_join (by decide) fun line mem => ?_
  obtain ⟨piece, here, rfl⟩ := List.mem_map.mp mem
  have inside : cr ∉ piece := fun mem => h ((isInfix_of_mem_splitOn here).subset mem)
  have blanks : cr ∉ Bytes.replicate n space := fun mem =>
    absurd (List.eq_of_mem_replicate mem) (by decide)
  split
  · exact inside
  · exact List.not_mem_append blanks inside

theorem PageData.cr_not_mem_rubyClass {d : PageData} (lines : ∀ field ∈ d.fields, cr ∉ field) :
    cr ∉ d.rubyClass := by
  simp only [fields, List.forall_mem_cons] at lines
  obtain ⟨viewModel, rootId, rootRef, document, body, -⟩ := lines
  have id := not_mem_quoteId_of_not_mem rootId (.inr rfl)
  have code := cr_not_mem_indentLines 4 body
  refine not_mem_join (by decide) ?_
  simp only [List.forall_mem_cons, List.mem_append, not_or]
  and_intros <;> first | assumption | (rw [utf8_ofList]; decide) | simp

section Program
variable {f : Bytes → Bytes} {first last : Bytes}

/-- Code below a first line and a blank one, and above a last line. -/
def framed (first code last : Bytes) : Bytes :=
  lf :: (first ++ lf :: lf :: (code ++ lf :: last))

theorem mapLines_framed (empty : f [] = []) (above : lf ∉ first) (below : lf ∉ last) (code : Bytes) :
    mapLines f (framed first code last) = framed (f first) (mapLines f code) (f last) := by
  have blank (s : Bytes) : mapLines f (lf :: s) = lf :: mapLines f s := by
    have line := mapLines_append f [] s
    rwa [mapLines_line List.not_mem_nil, empty] at line
  rw [framed, blank, mapLines_append, blank, mapLines_append, mapLines_line above, mapLines_line below]
  rfl

/-- The script of an `iife` page. -/
def PageData.iifeProgram (d : PageData) : Bytes :=
  utf8 "\n      require 'js'\n\n" ++ indentLines 6 d.rubyClass ++ utf8 "\n    "

theorem PageData.umdSource_eq (d : PageData) :
    d.umdSource = framed (utf8 "        require 'js'") (indentLines 8 d.rubyClass) (utf8 "      ") := by
  rw [umdSource, show utf8 "\n        require 'js'\n\n" =
    lf :: (utf8 "        require 'js'" ++ [lf, lf]) by decide, show utf8 "\n      " = lf :: utf8 "      " by decide]
  simp [framed]

theorem PageData.iifeProgram_eq (d : PageData) :
    d.iifeProgram = framed (utf8 "      require 'js'") (indentLines 6 d.rubyClass) (utf8 "    ") := by
  rw [iifeProgram, show utf8 "\n      require 'js'\n\n" =
    lf :: (utf8 "      require 'js'" ++ [lf, lf]) by decide, show utf8 "\n    " = lf :: utf8 "    " by decide]
  simp [framed]

/-- Both programs are one text, which only their indentation tells apart. -/
theorem PageData.umdSource_eq_indentLines (d : PageData) : d.umdSource = indentLines 2 d.iifeProgram := by
  rw [iifeProgram_eq, indentLines_eq_mapLines, mapLines_framed rfl (by decide) (by decide),
    ← indentLines_eq_mapLines, indentLines_indentLines, umdSource_eq]
  congr 1

theorem PageData.outdentLines_umdSource (d : PageData) :
    outdentLines 8 d.umdSource = framed (utf8 "require 'js'") d.rubyClass [] := by
  rw [umdSource_eq, outdentLines, mapLines_framed rfl (by decide) (by decide), ← outdentLines,
    outdentLines_indentLines]
  congr 1

theorem PageData.outdentLines_iifeProgram (d : PageData) :
    outdentLines 6 d.iifeProgram = framed (utf8 "require 'js'") d.rubyClass [] := by
  rw [iifeProgram_eq, outdentLines, mapLines_framed rfl (by decide) (by decide), ← outdentLines,
    outdentLines_indentLines]
  congr 1

end Program

/-- The interpreter that a page fetches is given the program of a page for the script loader. The string
between backticks is a constant, and its value is that program with two more blanks in front of every
line that is not empty. Both hold the view model class as it is made on its own. -/
theorem umd_evaluates_iife_program (data : PageData) (lines : ∀ field ∈ data.fields, cr ∉ field) :
    ∃ code umd iife written after text script,
      Page.make .viewModel .ruby data = .ok (.code code) ∧
      Page.make .umd .ruby data = .ok (.html umd) ∧
      Page.make .iife .ruby data = .ok (.html iife) ∧
      evaluated? (Page.html umd).render = some (written, utf8 ")" ++ after) ∧
      Target.javascript.readLiteral (symbols (backtick :: written ++ [backtick])) =
        some [.literal text] ∧
      iife.filterMap PageItem.script? = [script] ∧
      text = utf8 "\n        require 'js'\n\n" ++ indentLines 8 code ++ utf8 "\n      " ∧
      text = indentLines 2 script ∧
      outdentLines 8 text = framed (utf8 "require 'js'") code [] ∧
      outdentLines 6 script = framed (utf8 "require 'js'") code [] := by
  let d := data.withDefaults
  obtain ⟨after, evaluated⟩ := evaluated?_umdItems d
  have code := PageData.cr_not_mem_rubyClass (PageData.cr_not_mem_withDefaults lines)
  have source : cr ∉ d.umdSource := by
    rw [PageData.umdSource]
    exact List.not_mem_append
      (List.not_mem_append (by rw [utf8_ofList]; decide) (cr_not_mem_indentLines 8 code)) (by decide)
  have read := readLiteral_template (replaced_umdProgram d) (List.cons_ne_nil lf _) source
  exact ⟨d.rubyClass, d.umdItems, d.iifeItems, d.umdProgram, after, d.umdSource, d.iifeProgram, rfl, rfl,
    rfl, evaluated, read, rfl, rfl, d.umdSource_eq_indentLines, d.outdentLines_umdSource,
    d.outdentLines_iifeProgram⟩

/-- Code with backticks, backslashes and what opens an interpolation. -/
theorem umd_evaluates_odd_code :
    let data : PageData :=
      ⟨[], utf8 "a`b", [], [], utf8 "x = \"\\\\$\x7b`\"\n\n  y = `\\`$\x7b1\x7d"⟩
    (∀ field ∈ data.fields, cr ∉ field) ∧
    ∃ code umd written after, Page.make .viewModel .ruby data = .ok (.code code) ∧
      Page.make .umd .ruby data = .ok (.html umd) ∧
      evaluated? (Page.html umd).render = some (written, utf8 ")" ++ after) ∧
      Target.javascript.readLiteral (symbols (backtick :: written ++ [backtick])) = some [.literal
        (utf8 "\n        require 'js'\n\n" ++ indentLines 8 code ++ utf8 "\n      ")] := by
  intro data
  have lines : ∀ field ∈ data.fields, cr ∉ field := by decide
  obtain ⟨code, umd, -, written, after, text, -, made, page, -, evaluated, read, -, whole, -⟩ :=
    umd_evaluates_iife_program data lines
  rw [whole] at read
  exact ⟨lines, code, umd, written, after, made, page, evaluated, read⟩

end DomTemplate
