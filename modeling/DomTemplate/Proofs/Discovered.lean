import DomTemplate.Command.Run
import DomTemplate.Proofs.GeneratedFiles

/-! Finding templates and the configuration. Every template that is found has a name with the extension
of templates, and the file generated for it goes next to it under a name with another extension. So
generated files change neither a template nor what is found. -/

namespace DomTemplate
open Ascii DomTemplate.Path FileTree

/-- A program in memory that may crash. -/
abbrev Program := ExceptT Crash InMemory

section Crashing
variable {α β : Type} {x : Program α} {f : α → Program β} {w w' : World}

theorem run_bind_ok {a : α} (h : x.run w = (.ok a, w')) : (x >>= f).run w = (f a).run w' := by
  rw [ExceptT.run_bind, bind_apply, h]

/-- What goes well to the end went well so far. -/
theorem of_run_bind {b : β} (h : (x >>= f).run w = (.ok b, w')) :
    ∃ a v, x.run w = (.ok a, v) ∧ (f a).run v = (.ok b, w') := by
  rw [ExceptT.run_bind, bind_apply] at h
  cases first : x.run w with
  | mk r v =>
    rw [first] at h
    cases r with
    | error e => cases h
    | ok a => exact ⟨a, v, rfl, h⟩

theorem run_lift (y : InMemory α) (w : World) :
    (liftM y : Program α).run w = (.ok (y w).1, (y w).2) := rfl

theorem run_lift_bind (y : InMemory α) (w : World) :
    (liftM y >>= f).run w = (f (y w).1).run (y w).2 := run_bind_ok (run_lift y w)

end Crashing

section Names
variable {place : List Bytes} {name : Bytes}

/-- The extensions of generated files. -/
def outputExtensions : List Bytes := [utf8 ".ir", utf8 ".html", utf8 ".js", utf8 ".rb"]

/-- A template called `name` in a folder. -/
structure IsTemplateAt (place : List Bytes) (name : Bytes) : Prop where
  placed : IsPlace place
  named : IsName name
  ending : templateExtension <:+ name

/-- A generated file called `name` in a folder. -/
structure IsOutputAt (place : List Bytes) (name : Bytes) : Prop where
  placed : IsPlace place
  named : IsName name
  ending : ∃ e ∈ outputExtensions, e <:+ name

theorem IsTemplateAt.isPlace (h : IsTemplateAt place name) : IsPlace (place ++ [name]) :=
  IsPlace.concat.mpr ⟨h.placed, h.named⟩

theorem IsOutputAt.isPlace (h : IsOutputAt place name) : IsPlace (place ++ [name]) :=
  IsPlace.concat.mpr ⟨h.placed, h.named⟩

theorem isTemplate_ending (h : isTemplate name = true) : templateExtension <:+ name := by
  rw [isTemplate, Bool.and_eq_true] at h
  exact List.isSuffixOf_iff_suffix.mp h.1

/-- No name ends both ways. -/
theorem IsOutputAt.not_template (h : IsOutputAt place name) : ¬templateExtension <:+ name := by
  intro template
  obtain ⟨e, mem, output⟩ := h.ending
  have both := List.suffix_or_suffix_of_suffix output template
  have apart : ∀ e ∈ outputExtensions, ¬(e <:+ templateExtension ∨ templateExtension <:+ e) := by
    decide
  exact apart e mem both

theorem IsOutputAt.ne_config (h : IsOutputAt place name) : name ≠ Config.fileName := by
  rintro rfl
  obtain ⟨e, mem, output⟩ := h.ending
  have apart : ∀ e ∈ outputExtensions, ¬e <:+ Config.fileName := by decide
  exact apart e mem output

/-- A file is generated next to its template. -/
theorem Pipeline.outPath_next (p : Pipeline) (emit : Emit) (h : IsTemplateAt place name) :
    ∃ base, IsOutputAt place base ∧
      p.outPath (Path.ofNames true (place ++ [name])) emit = Path.ofNames true (place ++ [base]) := by
  have known : ∀ e ∈ outputExtensions, slash ∉ e ∧ 3 ≤ e.length := by decide
  have named (e : Bytes) (mem : e ∈ outputExtensions) : IsName (stem name ++ e) := by
    have size : 3 ≤ (stem name ++ e).length := by
      rw [List.length_append]
      exact Nat.le_add_left_of_le (known e mem).2
    refine ⟨?_, ?_, ?_, ?_⟩
    · intro same
      simp [same] at size
    · rw [List.mem_append, not_or]
      refine ⟨fun mem => h.named.whole ?_, (known e mem).1⟩
      rw [stem] at mem
      split_ifs at mem
      · exact mem
      · exact List.takeWhile_subset _ mem
    · intro same
      simp [same, here] at size
    · intro same
      simp [same, up] at size
  have next (e : Bytes) (mem : e ∈ outputExtensions) : IsOutputAt place (stem name ++ e) ∧
      Path.join [folderPath place, stem name ++ e] = Path.ofNames true (place ++ [stem name ++ e]) :=
    ⟨⟨h.placed, named e mem, e, mem, List.suffix_append _ _⟩, join_folderPath (named e mem) h.placed⟩
  simp only [outPath, split_ofNames h.named]
  cases emit with
  | intents => exact ⟨_, next _ (by simp [outputExtensions])⟩
  | code =>
    refine ⟨_, next _ ?_⟩
    cases p.kind <;> cases p.target <;> simp [PageKind.extension, PageKind.isHtml, outputExtensions]

/-- The path of a template that can be found. -/
def IsFound (path : Bytes) : Prop :=
  ∃ place name, IsTemplateAt place name ∧ path = Path.ofNames true (place ++ [name])

theorem IsFound.of_base (h : IsPlace place)
    (template : isTemplate (base (Path.ofNames true place)) = true) : IsFound (Path.ofNames true place) := by
  rcases List.eq_nil_or_concat place with rfl | ⟨front, last, rfl⟩
  · exact absurd template (by decide)
  · rw [List.concat_eq_append] at h template ⊢
    obtain ⟨above, named⟩ := IsPlace.concat.mp h
    rw [base_ofNames named] at template
    exact ⟨front, last, ⟨above, named, isTemplate_ending template⟩, rfl⟩

theorem IsFound.of_ending {s : Bytes} (rooted : isAbsolute s = true) :
    IsFound (clean (s ++ templateExtension)) := by
  obtain ⟨place, last, above, named, cleaned⟩ := clean_extend rooted
    (show slash ∉ templateExtension by decide) (by decide)
  exact ⟨place, _, ⟨above, named, List.suffix_append _ _⟩, cleaned⟩

end Names

namespace Pattern

/-- Where a pattern starts to look. -/
def path : Pattern → Bytes
  | tree path | place path => path

/-- The templates that a pattern stands for, by what there is where it starts to look. -/
def select : Pattern → Entry → Except DiscoveryError (List Bytes)
  | tree path, .file _ => .ok ([path].filter fun p => isTemplate (Path.base p))
  | tree path, .folder inner =>
    .ok (((inner.places isSkipped).map fun place => Path.join (path :: place)).filter
      fun p => isTemplate (Path.base p))
  | place path, .file _ => if isTemplate path then .ok [path] else .error (.notTemplate path)
  | place path, .folder inner =>
    .ok ((inner.fileNames.filter isTemplate).map fun name => Path.join [path, name])

theorem templates_world (p : Pattern) (w : World) : ((p.templates : InMemory _) w).2 = w := by
  cases p with
  | tree path =>
    rw [templates, bind_apply]
    cases found : ((Host.filesBelow isSkipped path : InMemory _) w).1 <;> rfl
  | place path =>
    rw [templates, bind_apply]
    cases kind : ((Host.isDirectory path : InMemory _) w).1 with
    | error e => rfl
    | ok b =>
      cases b with
      | false => rfl
      | true =>
        simp only [bind_apply]
        cases found : ((Host.list path : InMemory _) ((Host.isDirectory path : InMemory _) w).2).1 <;> rfl

theorem templates_free {p : Pattern} {w : World} (free : ∀ op path, w.refuses op path = none) {e : Entry}
    (found : w.files.entry p.path = .ok e) : ((p.templates : InMemory _) w).1 = p.select e := by
  cases p with
  | tree path =>
    rw [Pattern.path] at found
    rw [templates, bind_apply, filesBelow_apply, World.look, free, FileTree.filesBelow, found]
    cases e <;> rfl
  | place path =>
    rw [Pattern.path] at found
    rw [templates, bind_apply, isDirectory_apply, World.look, free, FileTree.isDirectory, found]
    cases e with
    | file content => rfl
    | folder inner =>
      refine Eq.trans (congrArg Prod.fst (bind_apply _ _ w)) ?_
      rw [list_apply, World.look, free, FileTree.list, found]
      rfl

section
variable {p : Pattern} {w : World} (h : w.Plain)
include h

theorem templates_entry {e : Entry} (found : w.files.entry p.path = .ok e) :
    ((p.templates : InMemory _) w).1 = p.select e := templates_free h.free found

theorem templates_absent {cause : FileCause} (found : w.files.entry p.path = .error cause) :
    ∃ e, ((p.templates : InMemory _) w).1 = .error e := by
  cases p with
  | tree path =>
    rw [Pattern.path] at found
    rw [templates, bind_apply, filesBelow_apply, World.look, h.free, FileTree.filesBelow, found]
    exact ⟨_, rfl⟩
  | place path =>
    rw [Pattern.path] at found
    rw [templates, bind_apply, isDirectory_apply, World.look, h.free, FileTree.isDirectory, found]
    exact ⟨_, rfl⟩

theorem templates_ok {ts : List Bytes} : ((p.templates : InMemory _) w).1 = .ok ts ↔
    ∃ e, w.files.entry p.path = .ok e ∧ p.select e = .ok ts := by
  cases found : w.files.entry p.path with
  | error cause =>
    obtain ⟨e, failed⟩ := templates_absent h found
    simp [failed]
  | ok e => simp [templates_entry h found]

end

/-- Every template that is selected has a name of templates. -/
theorem select_found {p : Pattern} {q : List Bytes} (starts : p.path = ofNames true q) (placed : IsPlace q)
    {e : Entry} {ts : List Bytes} (selected : p.select e = .ok ts) : ∀ t ∈ ts, IsFound t := by
  intro t mem
  cases p with
  | tree path =>
    rw [Pattern.path] at starts
    subst starts
    cases e with
    | file content =>
      cases selected
      obtain ⟨same, template⟩ := List.mem_filter.mp mem
      rw [List.mem_singleton] at same
      subst same
      exact .of_base placed template
    | folder inner =>
      cases selected
      obtain ⟨inside, template⟩ := List.mem_filter.mp mem
      obtain ⟨rest, -, rfl⟩ := List.mem_map.mp inside
      obtain ⟨place, below, same⟩ := join_absolute (p := ofNames true q) rfl rest
      rw [same] at template ⊢
      exact .of_base below template
  | place path =>
    rw [Pattern.path] at starts
    subst starts
    cases e with
    | file content =>
      rw [select] at selected
      split_ifs at selected with template
      cases selected
      rw [List.mem_singleton.mp mem]
      -- a path that ends in the extension is longer than it, so that a rooted text comes before
      obtain ⟨s, whole⟩ := isTemplate_ending template
      have rooted : isAbsolute s = true := by
        rw [isTemplate, Bool.and_eq_true, ← whole, List.length_append] at template
        cases s with
        | nil => simp at template
        | cons c s =>
          rw [ofNames, if_pos rfl, List.cons_append, List.cons.injEq] at whole
          rw [whole.1]
          rfl
      rw [← clean_ofNames placed, ← whole]
      exact .of_ending rooted
    | folder inner =>
      cases selected
      obtain ⟨name, inside, rfl⟩ := List.mem_map.mp mem
      obtain ⟨s, rfl⟩ := isTemplate_ending (List.mem_filter.mp inside).2
      have joined : Path.join [ofNames true q, s ++ templateExtension] =
          clean ((ofNames true q ++ slash :: s) ++ templateExtension) := by
        rw [Path.join, List.dropWhile_cons_of_neg (by simp [ofNames])]
        simp [Bytes.join, List.intercalate]
      rw [joined]
      exact .of_ending rfl

theorem path_ofText {dir : Bytes} (rooted : isAbsolute dir = true) (text : Bytes) :
    ∃ q, IsPlace q ∧ (ofText dir text).path = ofNames true q := by
  have resolved (path : Bytes) : ∃ q, IsPlace q ∧ resolve dir path = ofNames true q := by
    rw [resolve]
    split_ifs with absolute
    · exact clean_absolute absolute
    · exact join_absolute rooted _
  rw [ofText]
  split_ifs <;> exact resolved _

section
variable {ps : List Pattern} {w w' : World}

theorem templatesOf_world (ps : List Pattern) (w : World) : ((templatesOf ps : InMemory _) w).2 = w := by
  induction ps with
  | nil => rfl
  | cons p ps ih =>
    rw [templatesOf, bind_apply, templates_world]
    cases ((p.templates : InMemory _) w).1 with
    | error e => rfl
    | ok paths => exact ih

theorem templatesOf_cons {p : Pattern} {ts : List Bytes} :
    ((templatesOf (p :: ps) : InMemory _) w).1 = .ok ts ↔
      ∃ first rest, ((p.templates : InMemory _) w).1 = .ok first ∧
        ((templatesOf ps : InMemory _) w).1 = .ok rest ∧ ts = first ++ rest := by
  rw [templatesOf, bind_apply, templates_world]
  cases ((p.templates : InMemory _) w).1 with
  | error e => simp [pure_apply]
  | ok first =>
    simp only [bind_apply, pure_apply]
    cases ((templatesOf ps : InMemory _) w).1 with
    | error e => simp [Except.map]
    | ok rest => simp [Except.map, eq_comm]

end

end Pattern

section Sorted

theorem Bytes.le_trans {s t u : Bytes} (first : s.le t = true) (second : t.le u = true) :
    s.le u = true := by
  induction s generalizing t u with
  | nil => rfl
  | cons a s ih =>
    cases t with
    | nil => cases first
    | cons b t =>
      cases u with
      | nil => cases second
      | cons c u =>
        simp only [Bytes.le, Bool.or_eq_true, Bool.and_eq_true, decide_eq_true_eq, beq_iff_eq]
          at first second ⊢
        rcases first with less | ⟨rfl, first⟩ <;> rcases second with less' | ⟨rfl, second⟩
        · exact .inl (UInt8.lt_trans less less')
        · exact .inl less
        · exact .inl less'
        · exact .inr ⟨rfl, ih first second⟩

theorem Bytes.le_antisymm {s t : Bytes} (first : s.le t = true) (second : t.le s = true) : s = t := by
  induction s generalizing t with
  | nil =>
    cases t with
    | nil => rfl
    | cons => cases second
  | cons a s ih =>
    cases t with
    | nil => cases first
    | cons b t =>
      simp only [Bytes.le, Bool.or_eq_true, Bool.and_eq_true, decide_eq_true_eq, beq_iff_eq] at first second
      rcases first with less | ⟨rfl, first⟩
      · rcases second with less' | ⟨rfl, -⟩
        · exact absurd less' (UInt8.lt_asymm less)
        · exact absurd less (UInt8.lt_irrefl _)
      · rcases second with less' | ⟨-, second⟩
        · exact absurd less' (UInt8.lt_irrefl _)
        · rw [ih first second]

theorem Bytes.le_total (s t : Bytes) : s.le t = true ∨ t.le s = true := by
  induction s generalizing t with
  | nil => exact .inl rfl
  | cons a s ih =>
    cases t with
    | nil => exact .inr rfl
    | cons b t =>
      simp only [Bytes.le, Bool.or_eq_true, Bool.and_eq_true, decide_eq_true_eq, beq_iff_eq]
      by_cases same : a = b
      · rcases ih t with below | above
        · exact .inl (.inr ⟨same, below⟩)
        · exact .inr (.inr ⟨same.symm, above⟩)
      · rcases UInt8.le_total a b with below | above
        · exact .inl (.inl (UInt8.lt_of_le_of_ne below same))
        · exact .inr (.inl (UInt8.lt_of_le_of_ne above (Ne.symm same)))

/-- Each member comes before those that are not before it. -/
def Increasing (ts : List Bytes) : Prop := ts.Pairwise fun s t => t.le s = false

theorem mem_insertSorted {s t : Bytes} {ts : List Bytes} : t ∈ insertSorted s ts ↔ t = s ∨ t ∈ ts := by
  induction ts with
  | nil => simp [insertSorted]
  | cons u ts ih =>
    rw [insertSorted]
    split_ifs with same before
    · simp [same]
    · simp
    · rw [List.mem_cons, ih, List.mem_cons]
      tauto

theorem mem_sortedSet {t : Bytes} {ts : List Bytes} : t ∈ sortedSet ts ↔ t ∈ ts := by
  induction ts with
  | nil => rfl
  | cons s ts ih =>
    rw [sortedSet, List.foldr_cons, mem_insertSorted, ← sortedSet, ih, List.mem_cons]

theorem increasing_insertSorted {s : Bytes} {ts : List Bytes} (h : Increasing ts) :
    Increasing (insertSorted s ts) := by
  induction ts with
  | nil => exact List.pairwise_singleton _ _
  | cons u ts ih =>
    obtain ⟨first, rest⟩ := List.pairwise_cons.mp h
    rw [insertSorted]
    split_ifs with same before
    · exact h
    · have below : u.le s = false := by
        rw [← Bool.not_eq_true]
        exact fun above => same (Bytes.le_antisymm before above)
      refine List.pairwise_cons.mpr ⟨List.forall_mem_cons.mpr ⟨below, fun t mem => ?_⟩, h⟩
      rw [← Bool.not_eq_true]
      intro above
      exact Bool.false_ne_true ((first t mem).symm.trans (Bytes.le_trans above before))
    · refine List.pairwise_cons.mpr ⟨fun t mem => ?_, ih rest⟩
      rcases mem_insertSorted.mp mem with rfl | later
      · rwa [Bool.not_eq_true] at before
      · exact first t later

theorem increasing_sortedSet (ts : List Bytes) : Increasing (sortedSet ts) := by
  induction ts with
  | nil => exact .nil
  | cons s ts ih => exact increasing_insertSorted ih

end Sorted

section Finding
variable {w : World} {dir : Bytes} {patterns ts : List Bytes}

theorem findTemplates_world (dir : Bytes) (patterns : List Bytes) (w : World) :
    ((findTemplates dir patterns : InMemory _) w).2 = w := by
  rw [findTemplates, bind_apply]
  exact Pattern.templatesOf_world _ w

theorem findTemplates_ok : ((findTemplates dir patterns : InMemory _) w).1 = .ok ts ↔
    ∃ found, ((Pattern.templatesOf (((patterns.map Bytes.trim).filter (!·.isEmpty)).map
      (Pattern.ofText dir)) : InMemory _) w).1 = .ok found ∧ ts = sortedSet found := by
  rw [findTemplates, bind_apply, pure_apply]
  cases ((Pattern.templatesOf (((patterns.map Bytes.trim).filter (!·.isEmpty)).map
      (Pattern.ofText dir)) : InMemory _) w).1 with
  | error e => simp [Except.map]
  | ok found => simp [Except.map, eq_comm]

theorem findTemplates_found (h : w.Plain) (rooted : isAbsolute dir = true)
    (found : ((findTemplates dir patterns : InMemory _) w).1 = .ok ts) :
    Increasing ts ∧ ∀ t ∈ ts, IsFound t := by
  obtain ⟨all, listed, rfl⟩ := findTemplates_ok.mp found
  refine ⟨increasing_sortedSet all, fun t mem => ?_⟩
  rw [mem_sortedSet] at mem
  clear found
  generalize (patterns.map Bytes.trim).filter (!·.isEmpty) = texts at listed
  induction texts generalizing all with
  | nil =>
    cases listed
    cases mem
  | cons text texts ih =>
    obtain ⟨first, rest, here, later, rfl⟩ := Pattern.templatesOf_cons.mp listed
    obtain ⟨e, -, selected⟩ := (Pattern.templates_ok h).mp here
    obtain ⟨q, placed, starts⟩ := Pattern.path_ofText rooted text
    rcases List.mem_append.mp mem with now | next
    · exact Pattern.select_found starts placed selected t now
    · exact ih rest next later

end Finding

/-- A tree after generated files were put into its folders. -/
inductive Folder.Gains (d : Folder) : Folder → Prop
  | refl : d.Gains d
  | put {d' : Folder} {place : List Bytes} {base : Bytes} (content : Bytes) (before : d.Gains d')
      (output : IsOutputAt place base) (parent : d'.at? place = some none)
      (free : d'.at? (place ++ [base]) ≠ some none) :
      d.Gains (d'.put (place ++ [base]) (.file content))

namespace Folder.Gains
variable {d d' : Folder}

theorem trans {d'' : Folder} (first : d.Gains d') (second : d'.Gains d'') : d.Gains d'' := by
  induction second with
  | refl => exact first
  | put content before output parent free ih => exact .put content ih output parent free

/-- A file stays a file. -/
theorem file (h : d.Gains d') {q : List Bytes} (there : ∃ content, d.at? q = some (some content)) :
    ∃ content, d'.at? q = some (some content) := by
  induction h with
  | refl => exact there
  | @put d' place base content before output parent free ih =>
    by_cases here : q = place ++ [base]
    · rw [here]
      exact ⟨content, at?_eq_file.mpr (get?_put parent)⟩
    · rwa [at?_put_of_ne free here]

theorem at?_eq (h : d.Gains d') (place : List Bytes) {name : Bytes}
    (other : ∀ place, ¬IsOutputAt place name) : d'.at? (place ++ [name]) = d.at? (place ++ [name]) := by
  induction h with
  | refl => rfl
  | put content before output parent free ih =>
    rw [at?_put_of_ne free, ih]
    intro same
    obtain ⟨-, rfl⟩ := (List.append_inj' same rfl).imp id List.singleton_inj.mp
    exact other _ output

/-- A pattern selects the same templates in a folder that has one more generated file. -/
theorem select_put {p : Pattern} {q rest : List Bytes} {base content : Bytes} {inner : Folder}
    (starts : p.path = ofNames true q) {place : List Bytes} (output : IsOutputAt place base)
    (below : place ++ [base] = q ++ rest) (free : inner.at? rest ≠ some none) :
    p.select (.folder (inner.put rest (.file content))) = p.select (.folder inner) := by
  have placed : IsPlace (q ++ rest) := below ▸ output.isPlace
  have hidden : isTemplate base = false := by
    rw [← Bool.not_eq_true]
    exact fun template => output.not_template (isTemplate_ending template)
  cases p with
  | tree path =>
    rw [Pattern.path] at starts
    subst starts
    rw [Pattern.select, Pattern.select, List.filter_map, List.filter_map, filter_places_put _ free]
    rw [Function.comp, join_place placed, ← below, base_ofNames output.named, hidden]
  | place path =>
    rw [Pattern.select, Pattern.select, filter_fileNames_put free]
    intro name last
    obtain ⟨front, rfl⟩ := List.getLast?_eq_some_iff.mp last
    rw [← List.append_assoc] at below
    rwa [← (List.append_inj' below rfl).2 |> List.singleton_inj.mp]

theorem select (h : d.Gains d') {p : Pattern} {q : List Bytes} (starts : p.path = ofNames true q)
    {e : Entry} (found : d.get? q = some e) : ∃ e', d'.get? q = some e' ∧ p.select e' = p.select e := by
  induction h with
  | refl => exact ⟨e, found, rfl⟩
  | @put d' place base content before output parent free ih =>
    obtain ⟨e', there, same⟩ := ih
    cases e' with
    | file old =>
      have other : p.select (.file content) = p.select (.file old) := by cases p <;> rfl
      by_cases here : q = place ++ [base]
      · exact ⟨_, here ▸ get?_put parent, other.trans same⟩
      · refine ⟨_, at?_eq_file.mp ?_, same⟩
        rw [at?_put_of_ne free here, at?_eq_file.mpr there]
    | folder inner =>
      obtain ⟨inner', put, rfl | ⟨rest, below, deeper, rfl⟩⟩ :
          ∃ inner', (d'.put (place ++ [base]) (.file content)).get? q = some (.folder inner') ∧ _ :=
        get?_put_folder free there
      · exact ⟨_, put, same⟩
      · exact ⟨_, put, (select_put starts output below deeper).trans same⟩

end Folder.Gains

/-- A system after generated files were written, and after output of any kind. -/
structure World.Gains (w w' : World) : Prop where
  refuses : w'.refuses = w.refuses
  numbers : w'.temporaryNumbers = w.temporaryNumbers
  current : w'.files.current = w.files.current
  root : w.files.root.Gains w'.files.root

theorem World.Gains.trans {w w' w'' : World} (first : w.Gains w') (second : w'.Gains w'') : w.Gains w'' :=
  ⟨second.refuses.trans first.refuses, second.numbers.trans first.numbers,
    second.current.trans first.current, first.root.trans second.root⟩

namespace World.Gains
variable {w w' : World} (h : w.Gains w')
include h

theorem plain (plain : w.Plain) : w'.Plain :=
  ⟨h.refuses ▸ plain.free, h.numbers ▸ plain.numbers⟩

theorem readFile_ok {place : List Bytes} {name content : Bytes} (plain : w.Plain)
    (placed : IsPlace (place ++ [name])) (other : ∀ place, ¬IsOutputAt place name) :
    w'.readFile (ofNames true (place ++ [name])) = .ok content ↔
      w.readFile (ofNames true (place ++ [name])) = .ok content := by
  rw [World.readFile_ok plain placed, World.readFile_ok (h.plain plain) placed, h.root.at?_eq place other]

theorem readFile_template {t src : Bytes} (plain : w.Plain) (found : IsFound t) :
    w'.readFile t = .ok src ↔ w.readFile t = .ok src := by
  obtain ⟨place, name, template, rfl⟩ := found
  exact h.readFile_ok plain template.isPlace
    fun _ output => output.not_template template.ending

theorem findTemplates {dir : Bytes} {patterns ts : List Bytes} (plain : w.Plain)
    (rooted : isAbsolute dir = true)
    (found : ((findTemplates dir patterns : InMemory _) w).1 = .ok ts) :
    ((DomTemplate.findTemplates dir patterns : InMemory _) w').1 = .ok ts := by
  obtain ⟨all, listed, rfl⟩ := findTemplates_ok.mp found
  refine findTemplates_ok.mpr ⟨all, ?_, rfl⟩
  clear found
  generalize (patterns.map Bytes.trim).filter (!·.isEmpty) = texts at listed ⊢
  induction texts generalizing all with
  | nil => exact listed
  | cons text texts ih =>
    obtain ⟨first, rest, here, later, rfl⟩ := Pattern.templatesOf_cons.mp listed
    refine Pattern.templatesOf_cons.mpr ⟨first, rest, ?_, ih rest later, rfl⟩
    obtain ⟨e, there, selected⟩ := (Pattern.templates_ok plain).mp here
    obtain ⟨q, placed, starts⟩ := Pattern.path_ofText rooted text
    rw [starts, entry_ok placed] at there
    obtain ⟨e', still, same⟩ := h.root.select starts there.1
    refine (Pattern.templates_ok (h.plain plain)).mpr ⟨e', ?_, same.trans selected⟩
    rw [starts, entry_ok placed]
    exact ⟨still, there.2⟩

end World.Gains

section Configuring
variable {w w' : World} {o : Options} {dir path : Bytes} {c : Config}

theorem logWhen_apply (logging : Bool) (entry : LogEntry) (w : World) :
    ∃ errors, (logWhen logging entry : InMemory Unit) w = ((), w.withErrors errors) := by
  cases logging with
  | false => exact ⟨w.errors, rfl⟩
  | true => exact ⟨_, rfl⟩

theorem Config.firstFile_world (paths : List Bytes) (w : World) :
    ((firstFile paths : InMemory _) w).2 = w := by
  induction paths with
  | nil => rfl
  | cons path paths ih =>
    rw [firstFile, bind_apply]
    cases ((Host.isDirectory path : InMemory _) w).1 with
    | error e => exact ih
    | ok b =>
      cases b with
      | false => rfl
      | true => exact ih

theorem Config.find_world (dir : Bytes) (w : World) : ((find dir : InMemory _) w).2 = w :=
  firstFile_world _ w

/-- The path of the configuration that is used: the one that is named, or the one that is found. -/
def Command.configPath? (o : Options) (dir : Bytes) (w : World) : Option Bytes :=
  if o.config.isEmpty then ((Config.find dir : InMemory _) w).1 else some o.config

namespace Command

/-- The configuration in the file at `path`, with the settings of the flags. -/
def loadWith (o : Options) (path : Bytes) : Program (Except LoadError Config) := do
  match ← Config.load path with
  | .error e => return .error e
  | .ok c =>
    (logWhen o.debug (.about .debug (utf8 "loaded config") path []) : InMemory Unit)
    return .ok (o.override c)

theorem configure_run : (configure o dir : Program _).run w =
    ((configPath? o dir w).elim (pure (.ok (o.override {}))) (loadWith o)).run w := by
  rw [configure, configPath?]
  split_ifs with empty
  · rw [run_lift_bind, Config.find_world]
    cases ((Config.find dir : InMemory _) w).1 <;> rfl
  · exact run_bind_ok rfl

section
variable {text : Bytes} (read : w.readFile path = .ok text)
include read

theorem load_read {r : Except Crash (Except LoadError Config)} (made : Config.ofFile path text = r) :
    (Config.load path : Program _).run w = (r, w) := by
  rw [Config.load, run_lift_bind, readFile_apply, read, ← made]
  rfl

theorem loadWith_ok (good : Config.ofFile path text = .ok (.ok c)) :
    ∃ errors, (loadWith o path).run w = (.ok (.ok (o.override c)), w.withErrors errors) := by
  obtain ⟨errors, logged⟩ := logWhen_apply o.debug (.about .debug (utf8 "loaded config") path []) w
  refine ⟨errors, ?_⟩
  rw [loadWith, run_bind_ok (load_read read good), run_lift_bind, logged]
  rfl

end

theorem of_loadWith (h : (loadWith o path).run w = (.ok (.ok c), w')) :
    ∃ text c₀, w.readFile path = .ok text ∧ Config.ofFile path text = .ok (.ok c₀) := by
  obtain ⟨loaded, v, load, rest⟩ := of_run_bind h
  cases loaded with
  | error e => cases rest
  | ok c₀ =>
    cases read : w.readFile path with
    | error e =>
      rw [Config.load, run_lift_bind, readFile_apply, read] at load
      cases load
    | ok text =>
      rw [load_read read rfl] at load
      exact ⟨text, c₀, rfl, congrArg Prod.fst load⟩

end Command
end Configuring

/-- A path at which a configuration may be found. -/
def Config.IsCandidate (path : Bytes) : Prop :=
  ∃ place, IsPlace (place ++ [fileName]) ∧ path = ofNames true (place ++ [fileName])

theorem Config.isCandidate_candidates {ns : List Bytes} (h : IsPlace ns) :
    ∀ path ∈ candidates ns, IsCandidate path := by
  have placed {place : List Bytes} (h : IsPlace place) : IsPlace (place ++ [fileName]) :=
    IsPlace.concat.mpr ⟨h, by decide, by decide, by decide⟩
  induction ns with
  | nil =>
    rw [candidates, List.forall_mem_singleton]
    exact ⟨[], placed h, join_place (placed h)⟩
  | cons name ns ih =>
    have back : IsPlace (name :: ns).reverse := fun n mem => h n (List.mem_reverse.mp mem)
    rw [candidates, List.forall_mem_cons]
    refine ⟨⟨_, placed back, join_place (placed back)⟩, ih fun n mem => ?_⟩
    exact h n (List.mem_cons_of_mem _ mem)

theorem Config.mem_of_firstFile {w : World} {path : Bytes} {paths : List Bytes}
    (found : ((firstFile paths : InMemory _) w).1 = some path) : path ∈ paths := by
  induction paths with
  | nil => cases found
  | cons first paths ih =>
    rw [firstFile, bind_apply] at found
    cases kind : ((Host.isDirectory first : InMemory _) w).1 with
    | error e =>
      rw [kind] at found
      exact List.mem_cons_of_mem _ (ih found)
    | ok b =>
      rw [kind] at found
      cases b with
      | false =>
        cases found
        exact List.mem_cons_self
      | true => exact List.mem_cons_of_mem _ (ih found)

/-- The paths at which a configuration is looked for. -/
def Config.searched (dir : Bytes) (w : World) : List Bytes :=
  candidates (cleanNames true (names
    (if isAbsolute dir then dir else Path.join [ofNames true w.files.current, dir]))).reverse

theorem Config.find_apply (dir : Bytes) (w : World) :
    (find dir : InMemory _) w = (firstFile (searched dir w) : InMemory _) w := rfl

theorem Config.isCandidate_searched (dir : Bytes) (w : World) :
    ∀ path ∈ searched dir w, IsCandidate path :=
  isCandidate_candidates fun _ mem =>
    isName_cleanNames (fun _ => isName_of_mem_names) _ (List.mem_reverse.mp mem)

namespace World.Gains
variable {w w' : World} (h : w.Gains w') (plain : w.Plain)
include h plain

theorem readFile_candidate {path text : Bytes} (candidate : Config.IsCandidate path) :
    w'.readFile path = .ok text ↔ w.readFile path = .ok text := by
  obtain ⟨place, placed, rfl⟩ := candidate
  exact h.readFile_ok plain placed fun _ output => output.ne_config rfl

theorem isDirectory_candidate {path : Bytes} (candidate : Config.IsCandidate path) {b : Bool} :
    ((Host.isDirectory path : InMemory _) w').1 = .ok b ↔
      ((Host.isDirectory path : InMemory _) w).1 = .ok b := by
  obtain ⟨place, placed, rfl⟩ := candidate
  refine (isDirectory_ok (h.plain plain) placed).trans (Iff.trans ?_ (isDirectory_ok plain placed).symm)
  rw [h.root.at?_eq place fun _ output => output.ne_config rfl]

theorem firstFile {paths : List Bytes} (candidates : ∀ path ∈ paths, Config.IsCandidate path) :
    ((Config.firstFile paths : InMemory _) w').1 = ((Config.firstFile paths : InMemory _) w).1 := by
  induction paths with
  | nil => rfl
  | cons path paths ih =>
    rw [List.forall_mem_cons] at candidates
    have kind := fun b => h.isDirectory_candidate plain candidates.1 (b := b)
    rw [Config.firstFile, bind_apply, bind_apply]
    cases before : ((Host.isDirectory path : InMemory _) w).1 with
    | ok b =>
      rw [(kind b).mpr before]
      cases b with
      | false => rfl
      | true => exact ih candidates.2
    | error e =>
      cases after : ((Host.isDirectory path : InMemory _) w').1 with
      | ok b =>
        have both := (kind b).mp after
        rw [before] at both
        cases both
      | error e' => exact ih candidates.2

theorem configPath? {o : Options} {dir : Bytes} :
    Command.configPath? o dir w' = Command.configPath? o dir w := by
  have same : Config.searched dir w' = Config.searched dir w := by
    rw [Config.searched, h.current, Config.searched]
  rw [Command.configPath?, Command.configPath?, Config.find_apply, Config.find_apply, same,
    h.firstFile plain (Config.isCandidate_searched dir w)]

/-- Generated files do not change the configuration, unless it is a file that is named and that one of
them replaces. -/
theorem configure {o : Options} {dir : Bytes} {c : Config}
    (kept : o.config = [] ∨ w'.readFile o.config = w.readFile o.config)
    (found : ((Command.configure o dir : Program _).run w).1 = .ok (.ok c)) :
    ∃ errors, (Command.configure o dir : Program _).run w' =
      (.ok (.ok c), w'.withErrors errors) := by
  rw [Command.configure_run] at found
  rw [Command.configure_run, h.configPath? plain]
  cases chosen : Command.configPath? o dir w with
  | none =>
    rw [chosen] at found
    cases found
    exact ⟨w'.errors, rfl⟩
  | some path =>
    rw [chosen, Option.elim_some] at found
    obtain ⟨text, c₀, read, made⟩ := Command.of_loadWith (Prod.ext found rfl)
    obtain ⟨errors, loaded⟩ := Command.loadWith_ok (o := o) read made
    rw [loaded] at found
    cases found
    refine Command.loadWith_ok ?_ made
    rw [Command.configPath?] at chosen
    split_ifs at chosen with empty
    · exact (h.readFile_candidate plain
        (Config.isCandidate_searched dir w path (Config.mem_of_firstFile chosen))).mpr read
    · cases chosen
      rw [kept.resolve_left (by simpa using empty), read]

end World.Gains

end DomTemplate
