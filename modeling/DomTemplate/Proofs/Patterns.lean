import DomTemplate.Proofs.Blanks
import DomTemplate.Proofs.Discovered
import DomTemplate.Proofs.Replacing
import DomTemplate.Proofs.Tokens
import Mathlib.Data.List.Sort

/-! What patterns stand for. The templates of some patterns are the templates of each of them, in
increasing order, so that neither the order of patterns nor their repetition matters. A directory stands
for the templates in it, and with dots behind it for those in its tree, less what lies in a directory that
is skipped. Listings follow the entries of a folder one by one; in a tree, where no name is given twice,
the entries are what the names lead to. -/

namespace DomTemplate
open Ascii DomTemplate.Path FileTree

/-- No name in a folder is given twice, and every name is one that paths can lead through. -/
def Folder.IsTree : Folder → Prop
  | empty => True
  | file name _ rest => IsName name ∧ rest.find? name = none ∧ rest.IsTree
  | folder name inner rest => IsName name ∧ rest.find? name = none ∧ inner.IsTree ∧ rest.IsTree

instance (name : Bytes) : Decidable (IsName name) :=
  decidable_of_iff (name ≠ [] ∧ slash ∉ name ∧ name ≠ here ∧ name ≠ up)
    ⟨fun h => ⟨h.1, h.2.1, h.2.2⟩, fun h => ⟨h.nonempty, h.whole, h.forward⟩⟩

instance Folder.decidableIsTree : (d : Folder) → Decidable d.IsTree
  | .empty => isTrue trivial
  | .file name _ rest =>
    have := rest.decidableIsTree
    inferInstanceAs (Decidable (IsName name ∧ rest.find? name = none ∧ rest.IsTree))
  | .folder name inner rest =>
    have := inner.decidableIsTree
    have := rest.decidableIsTree
    inferInstanceAs (Decidable (IsName name ∧ rest.find? name = none ∧ inner.IsTree ∧ rest.IsTree))

def Entry.IsTree : Entry → Prop
  | file _ => True
  | folder inner => inner.IsTree

namespace Folder
variable {d : Folder} {name : Bytes} {e : Entry} {q : List Bytes}

theorem isTree_add {rest : Folder} : (add name rest e).IsTree ↔
    IsName name ∧ rest.find? name = none ∧ e.IsTree ∧ rest.IsTree := by
  cases e <;> simp [add, IsTree, Entry.IsTree]

theorem IsTree.mem_entries (h : d.IsTree) : (name, e) ∈ d.entries ↔ d.find? name = some e := by
  induction d using ofAdds with
  | empty => simp [entries, find?]
  | more n rest old ih =>
    obtain ⟨-, fresh, -, later⟩ := isTree_add.mp h
    rw [entries_add, find?_add, List.mem_cons, Prod.mk.injEq, ih later]
    split_ifs with here
    · rw [← here, fresh]
      simp [eq_comm]
    · simp [Ne.symm here]

theorem IsTree.of_find? (h : d.IsTree) (found : d.find? name = some e) : IsName name ∧ e.IsTree := by
  induction d using ofAdds with
  | empty => cases found
  | more n rest old ih =>
    obtain ⟨named, -, inner, later⟩ := isTree_add.mp h
    rw [find?_add] at found
    split_ifs at found with here
    · cases found
      exact ⟨here ▸ named, inner⟩
    · exact ih later found

/-- What stands in a tree stands at a place, and is a tree. -/
theorem IsTree.of_get? (h : d.IsTree) (found : d.get? q = some e) : IsPlace q ∧ e.IsTree := by
  induction q generalizing d with
  | nil =>
    cases found
    exact ⟨nofun, h⟩
  | cons name names ih =>
    rw [get?_cons] at found
    cases entry : d.find? name with
    | none => rw [entry] at found; cases found
    | some first =>
      obtain ⟨named, inner⟩ := h.of_find? entry
      rw [entry, Option.bind_some] at found
      cases first with
      | file content =>
        rw [Entry.below] at found
        split_ifs at found with last
        cases found
        subst last
        exact ⟨List.forall_mem_singleton.mpr named, trivial⟩
      | folder below =>
        obtain ⟨placed, whole⟩ := ih inner found
        exact ⟨List.forall_mem_cons.mpr ⟨named, placed⟩, whole⟩

theorem IsTree.mem_fileNames (h : d.IsTree) :
    name ∈ d.fileNames ↔ ∃ content, d.get? [name] = some (.file content) := by
  have entry : (∃ content, d.get? [name] = some (.file content)) ↔
      ∃ content, (name, .file content) ∈ d.entries := by
    refine exists_congr fun content => ?_
    rw [h.mem_entries, get?_cons]
    cases d.find? name with
    | none => simp
    | some e => cases e <;> simp [Entry.below, get?]
  rw [fileNames_eq, entry, List.mem_flatMap]
  constructor
  · rintro ⟨⟨n, _ | _⟩, mem, here⟩
    · obtain rfl := List.mem_singleton.mp here
      exact ⟨_, mem⟩
    · cases here
  · rintro ⟨content, mem⟩
    exact ⟨_, mem, List.mem_singleton.mpr rfl⟩

theorem nil_not_mem_places (skip : Bytes → Bool) (d : Folder) : [] ∉ d.places skip := by
  rw [places_eq, List.mem_flatMap]
  rintro ⟨⟨n, content | inner⟩, -, here⟩
  · simp [listPlaces] at here
  · rw [listPlaces] at here
    split at here <;> simp at here

theorem IsTree.cons_mem_places (h : d.IsTree) {skip : Bytes → Bool} : name :: q ∈ d.places skip ↔
    (q = [] ∧ ∃ content, d.find? name = some (.file content)) ∨
    ∃ inner, d.find? name = some (.folder inner) ∧ skip name = false ∧ q ∈ inner.places skip := by
  rw [places_eq, List.mem_flatMap]
  constructor
  · rintro ⟨⟨n, content | inner⟩, mem, here⟩
    · obtain ⟨rfl, rfl⟩ : name = n ∧ q = [] := by simpa [listPlaces] using here
      exact .inl ⟨rfl, content, h.mem_entries.mp mem⟩
    · rw [listPlaces] at here
      split_ifs at here with skipped
      · cases here
      · obtain ⟨q', inside, same⟩ := List.mem_map.mp here
        cases same
        exact .inr ⟨inner, h.mem_entries.mp mem, by simpa using skipped, inside⟩
  · rintro (⟨rfl, content, found⟩ | ⟨inner, found, kept, inside⟩)
    · exact ⟨_, h.mem_entries.mpr found, by simp [listPlaces]⟩
    · refine ⟨_, h.mem_entries.mpr found, ?_⟩
      rw [listPlaces, if_neg (by simp [kept])]
      exact List.mem_map_of_mem inside

/-- The listing of a tree has the places of its files, less those in a folder that is skipped. -/
theorem IsTree.mem_places (h : d.IsTree) {skip : Bytes → Bool} : q ∈ d.places skip ↔
    (∀ n ∈ q.dropLast, skip n = false) ∧ ∃ content, d.get? q = some (.file content) := by
  induction q generalizing d with
  | nil => simp [nil_not_mem_places, get?]
  | cons name q ih =>
    rw [h.cons_mem_places, get?_cons]
    cases found : d.find? name with
    | none => simp
    | some e =>
      cases e with
      | file content =>
        cases q <;> simp [Entry.below]
      | folder inner =>
        have deeper := ih (h.of_find? found).2
        cases q with
        | nil => simp [Entry.below, get?, nil_not_mem_places]
        | cons next q =>
          simp [Entry.below, deeper, and_assoc]

end Folder

namespace Path
variable {name : Bytes}

theorem base_append {front : Bytes} (starts : front = [] ∨ ∃ before, front = before ++ [slash])
    (named : IsName name) : base (front ++ name) = name := by
  have last : (split (front ++ name)).2 = name := by
    have whole : ∀ b ∈ name.reverse, (b != slash) = true := by
      intro b mem
      rw [bne_iff_ne]
      rintro rfl
      exact named.whole (List.mem_reverse.mp mem)
    rw [split, List.reverse_append, List.takeWhile_append_of_pos whole]
    rcases starts with rfl | ⟨before, rfl⟩ <;> simp
  rw [base_eq_split (by rw [last]; exact named.nonempty), last]

theorem base_ofNames_concat (rooted : Bool) (place : List Bytes) (named : IsName name) :
    base (ofNames rooted (place ++ [name])) = name := by
  cases rooted with
  | true => exact base_ofNames named
  | false =>
    -- without the slash in front it is the rest of the absolute path
    have rest : ofNames false (place ++ [name]) = place.flatMap (· ++ [slash]) ++ name := by
      have whole := ofNames_concat place name
      rw [ofNames, if_pos rfl, folderPath, List.cons_append, List.cons.injEq] at whole
      simpa [ofNames] using whole.2
    rw [rest]
    refine base_append ?_ named
    rcases List.eq_nil_or_concat place with rfl | ⟨front, last, rfl⟩
    · exact .inl rfl
    · exact .inr ⟨front.flatMap (· ++ [slash]) ++ last, by simp⟩

/-- The last of the names that are joined to a path is the last name of the result. -/
theorem base_join {path : Bytes} {place : List Bytes} (nonempty : path ≠ [])
    (placed : IsPlace (place ++ [name])) : base (join (path :: (place ++ [name]))) = name := by
  have named := (IsPlace.concat.mp placed).2
  have forward (rooted : Bool) (ns : List Bytes) :
      cleanNames rooted (ns ++ [name]) = cleanNames rooted ns ++ [name] := by
    rw [cleanNames, List.foldl_concat, Path.follow.eq_def, if_neg named.forward.1, if_neg named.forward.2,
      List.reverse_cons, cleanNames]
  rw [join, List.dropWhile_cons_of_neg (by simpa using nonempty)]
  simp only
  rw [clean, names_join _ placed, ← List.append_assoc, forward, base_ofNames_concat _ _ named]

end Path

namespace Bytes
variable {s : Bytes} {set : List Bytes}

theorem dropLeading_eq_self (free : PrefixFree set) :
    dropLeading set s = s ↔ ∀ blank ∈ set, ¬blank <+: s := by
  constructor
  · rintro same blank mem ⟨rest, rfl⟩
    have size : 0 < blank.length := List.length_pos_iff.mpr fun empty => free.1 (empty ▸ mem)
    obtain ⟨row, -, split⟩ := exists_row_dropLeading set rest
    rw [dropLeading_row free (.single mem)] at same
    have sizes := congrArg List.length same
    have sizes' := congrArg List.length split
    simp only [List.length_append] at sizes sizes'
    omega
  · intro none
    have kept : afterLeading? set s = Option.none := by
      rw [afterLeading?, List.findSome?_eq_none_iff]
      intro blank mem
      cases dropped : dropPrefix? blank s with
      | none => rfl
      | some rest => exact absurd ⟨rest, (dropPrefix?_eq_some.mp dropped).symm⟩ (none blank mem)
    rw [dropLeading, kept]

theorem trim_eq_self : trim s = s ↔ trimLeft s = s ∧ trimRight s = s := by
  constructor
  · intro same
    have left : trimLeft s = s := by
      obtain ⟨row, -, split⟩ := exists_row_dropLeading blanks s
      obtain ⟨row', -, split'⟩ := exists_row_dropLeading (blanks.map List.reverse) (trimLeft s).reverse
      have sizes := congrArg List.length split
      have sizes' := congrArg List.length split'
      have size := congrArg List.length same
      rw [← trimLeft, List.length_append] at sizes
      rw [trim, trimRight, List.length_reverse] at size
      rw [List.length_append, List.length_reverse] at sizes'
      have empty : row = [] := List.eq_nil_of_length_eq_zero (by omega)
      rw [empty] at split
      exact split.symm
    refine ⟨left, ?_⟩
    rwa [trim, left] at same
  · rintro ⟨left, right⟩
    rw [trim, left, right]

/-- The dots of a pattern are no white space, and neither is the slash in front of them. -/
theorem trim_dots (bare : trim s = s) :
    trim (s ++ slash :: Pattern.dots) = s ++ slash :: Pattern.dots := by
  have plain : ∀ blank ∈ blanks, slash ∉ blank ∧ dot ∉ blank := by decide +kernel
  rw [trim_eq_self] at bare ⊢
  constructor
  · have unled := (dropLeading_eq_self prefixFree_blanks).mp bare.1
    refine (dropLeading_eq_self prefixFree_blanks).mpr fun blank mem starts => ?_
    rcases List.prefix_or_prefix_of_prefix starts (List.prefix_append s _) with inside | ⟨rest, rfl⟩
    · exact unled blank mem inside
    · rw [List.prefix_append_right_inj] at starts
      cases rest with
      | nil => exact unled s (by simpa using mem) List.prefix_rfl
      | cons c rest =>
        obtain ⟨rfl, -⟩ := List.cons_prefix_cons.mp starts
        exact (plain _ mem).1 (by simp)
  · rw [trimRight, List.reverse_eq_iff]
    refine (dropLeading_eq_self prefixFree_reversed).mpr fun reversed mem starts => ?_
    obtain ⟨blank, listed, rfl⟩ := List.mem_map.mp mem
    rw [show Pattern.dots = [dot, dot, dot] by decide] at starts
    cases turned : blank.reverse with
    | nil => exact prefixFree_reversed.1 (turned ▸ mem)
    | cons c rest =>
      rw [turned, List.reverse_append] at starts
      obtain ⟨rfl, -⟩ := List.cons_prefix_cons.mp starts
      exact (plain _ listed).2 (List.mem_reverse.mp (by rw [turned]; exact List.mem_cons_self))

end Bytes

/-- `t` is the path of a template that lies directly in the folder at `path`. -/
def Folder.HasTemplate (inner : Folder) (path t : Bytes) : Prop :=
  ∃ name content, inner.get? [name] = some (.file content) ∧ isTemplate name = true ∧
    t = Path.join [path, name]

/-- `t` is the path of a template that lies in the folder at `path`, or in one that can be reached from
there without entering a folder for the code of others or a hidden one. -/
def Folder.ReachesTemplate (inner : Folder) (path t : Bytes) : Prop :=
  ∃ front name content, inner.get? (front ++ [name]) = some (.file content) ∧
    (∀ n ∈ front, n ≠ utf8 "vendor" ∧ n ≠ utf8 "node_modules" ∧ n.head? ≠ some dot) ∧
    isTemplate name = true ∧ t = Path.join (path :: (front ++ [name]))

theorem isSkipped_eq_false {name : Bytes} : isSkipped name = false ↔
    name ≠ utf8 "vendor" ∧ name ≠ utf8 "node_modules" ∧ name.head? ≠ some dot := by
  simp [isSkipped, and_assoc]

namespace Pattern
variable {dir text : Bytes}

theorem ofText_place (plain : text ≠ dots) (closed : ¬slash :: dots <:+ text) :
    ofText dir text = .place (resolve dir text) := by
  have other : ¬(text = dots || text.endsWith (slash :: dots)) = true := by
    simpa [plain, Bytes.endsWith] using closed
  rw [ofText, if_neg other]

theorem ofText_tree (nonempty : text ≠ []) :
    ofText dir (text ++ slash :: dots) = .tree (resolve dir text) := by
  have ends : (text ++ slash :: dots = dots || (text ++ slash :: dots).endsWith (slash :: dots)) = true := by
    simp [Bytes.endsWith]
  have short (t s : Bytes) : Bytes.trimSuffix t (s ++ t) = s := by
    rw [Bytes.trimSuffix, Bytes.dropSuffix?_eq_some.mpr rfl]
    rfl
  have stripped : Bytes.trimSuffix [slash] (Bytes.trimSuffix dots (text ++ slash :: dots)) = text := by
    rw [List.append_cons text slash dots, short, short]
  rw [ofText, if_pos ends]
  simp only [stripped, List.isEmpty_iff, nonempty, if_false]

theorem resolve_ne_nil (nonempty : text ≠ []) : resolve dir text ≠ [] := by
  rw [resolve]
  split_ifs with rooted
  · exact clean_ne_nil text
  · rw [Path.join]
    cases dir with
    | nil =>
      rw [List.dropWhile_cons_of_pos rfl, List.dropWhile_cons_of_neg (by simpa using nonempty)]
      exact clean_ne_nil _
    | cons c dir =>
      rw [List.dropWhile_cons_of_neg (by simp)]
      exact clean_ne_nil _

/-- The templates of a pattern are those of the entry at its path, whatever the system refuses. -/
theorem select_of_templates {p : Pattern} {w : World} {ts : List Bytes}
    (h : ((p.templates : InMemory _) w).1 = .ok ts) :
    ∃ e, w.files.entry p.path = .ok e ∧ p.select e = .ok ts := by
  cases p with
  | tree path =>
    rw [templates, bind_apply, filesBelow_apply] at h
    cases below : w.look .lstat path fun t => t.filesBelow isSkipped path with
    | error e => rw [below] at h; cases h
    | ok paths =>
      rw [below] at h
      cases h
      obtain ⟨-, listed⟩ := World.look_eq_ok.mp below
      obtain ⟨e, found, listed⟩ := exists_of_bind_ok listed
      cases e <;> cases listed <;> exact ⟨_, found, rfl⟩
  | place path =>
    rw [templates, bind_apply, isDirectory_apply] at h
    cases kind : w.look .stat path fun t => t.isDirectory path with
    | error e => rw [kind] at h; cases h
    | ok b =>
      rw [kind] at h
      obtain ⟨-, looked⟩ := World.look_eq_ok.mp kind
      obtain ⟨e, found, looked⟩ := exists_of_bind_ok looked
      cases e with
      | file content =>
        cases looked
        exact ⟨_, found, h⟩
      | folder inner =>
        cases looked
        dsimp only at h
        rw [bind_apply, list_apply] at h
        cases names : w.look .openFile path fun t => t.list path with
        | error e => rw [names] at h; cases h
        | ok ns =>
          rw [names] at h
          cases h
          obtain ⟨-, listed⟩ := World.look_eq_ok.mp names
          rw [FileTree.list, found] at listed
          cases listed
          exact ⟨_, found, rfl⟩

section
variable {path t : Bytes} {inner : Folder} (tree : inner.IsTree)
include tree

theorem mem_select_place {ts : List Bytes} (h : (place path).select (.folder inner) = .ok ts) :
    t ∈ ts ↔ inner.HasTemplate path t := by
  cases h
  rw [List.mem_map]
  constructor
  · rintro ⟨name, mem, rfl⟩
    obtain ⟨listed, template⟩ := List.mem_filter.mp mem
    obtain ⟨content, found⟩ := tree.mem_fileNames.mp listed
    exact ⟨name, content, found, template, rfl⟩
  · rintro ⟨name, content, found, template, rfl⟩
    exact ⟨name, List.mem_filter.mpr ⟨tree.mem_fileNames.mpr ⟨content, found⟩, template⟩, rfl⟩

theorem mem_select_tree (nonempty : path ≠ []) {ts : List Bytes}
    (h : (Pattern.tree path).select (.folder inner) = .ok ts) :
    t ∈ ts ↔ inner.ReachesTemplate path t := by
  cases h
  simp only [List.mem_filter, List.mem_map, Folder.ReachesTemplate, ← isSkipped_eq_false]
  constructor
  · rintro ⟨⟨q, listed, rfl⟩, template⟩
    obtain ⟨kept, content, found⟩ := tree.mem_places.mp listed
    rcases List.eq_nil_or_concat q with rfl | ⟨front, name, rfl⟩
    · cases found
    · rw [List.concat_eq_append] at kept found template ⊢
      rw [List.dropLast_concat] at kept
      rw [base_join nonempty (tree.of_get? found).1] at template
      exact ⟨front, name, content, found, kept, template, rfl⟩
  · rintro ⟨front, name, content, found, kept, template, rfl⟩
    refine ⟨⟨_, tree.mem_places.mpr ⟨?_, content, found⟩, rfl⟩, ?_⟩
    · rwa [List.dropLast_concat]
    · rwa [base_join nonempty (tree.of_get? found).1]

end

/-- In a tree, a template that is selected at an absolute path is the path of a file. -/
theorem select_file {p : Pattern} {root : Folder} {q : List Bytes} {e : Entry} {ts : List Bytes}
    (tree : root.IsTree) (starts : p.path = ofNames true q) (found : root.get? q = some e)
    (selected : p.select e = .ok ts) :
    ∀ t ∈ ts, ∃ place content, IsPlace place ∧ t = ofNames true place ∧
      root.get? place = some (.file content) := by
  intro t mem
  obtain ⟨placed, whole⟩ := tree.of_get? found
  cases e with
  | file content =>
    have same : t = p.path := by
      cases p with
      | tree path =>
        cases selected
        exact List.mem_singleton.mp (List.mem_filter.mp mem).1
      | place path =>
        rw [select] at selected
        split_ifs at selected
        cases selected
        exact List.mem_singleton.mp mem
    exact ⟨q, content, placed, same.trans starts, found⟩
  | folder inner =>
    have below {rest : List Bytes} {content : Bytes} (there : inner.get? rest = some (.file content)) :
        root.get? (q ++ rest) = some (.file content) := by
      rw [Folder.get?_append, found]
      exact there
    have joined {rest : List Bytes} {content : Bytes} (there : inner.get? rest = some (.file content)) :
        ∃ place content, IsPlace place ∧ Path.join (p.path :: rest) = ofNames true place ∧
          root.get? place = some (.file content) := by
      have placed := (tree.of_get? (below there)).1
      exact ⟨q ++ rest, content, placed, by rw [starts, join_place placed], below there⟩
    cases p with
    | tree path =>
      have nonempty : path ≠ [] := by
        rw [show path = ofNames true q from starts, ofNames]
        exact List.cons_ne_nil _ _
      obtain ⟨front, name, content, there, -, -, rfl⟩ := (mem_select_tree whole nonempty selected).mp mem
      exact joined there
    | place path =>
      obtain ⟨name, content, there, -, rfl⟩ := (mem_select_place whole selected).mp mem
      exact joined there

/-- The patterns that some texts stand for, less those that are blank. -/
def ofTexts (dir : Bytes) (texts : List Bytes) : List Pattern :=
  ((texts.map Bytes.trim).filter (!·.isEmpty)).map (ofText dir)

theorem mem_ofTexts {p : Pattern} {texts : List Bytes} :
    p ∈ ofTexts dir texts ↔ ∃ text ∈ texts, Bytes.trim text ≠ [] ∧ p = ofText dir (Bytes.trim text) := by
  simp only [ofTexts, List.mem_map, List.mem_filter, Bool.not_eq_true', List.isEmpty_eq_false_iff]
  constructor
  · rintro ⟨trimmed, ⟨⟨text, mem, rfl⟩, filled⟩, rfl⟩
    exact ⟨text, mem, filled, rfl⟩
  · rintro ⟨text, mem, filled, rfl⟩
    exact ⟨_, ⟨⟨text, mem, rfl⟩, filled⟩, rfl⟩

theorem ofTexts_single (bare : Bytes.trim text = text) (nonempty : text ≠ []) :
    ofTexts dir [text] = [ofText dir text] := by
  simp [ofTexts, bare, nonempty]

section
variable {w : World} {p : Pattern} {ps : List Pattern} {t : Bytes} {ts : List Bytes}

def Succeeds (w : World) (p : Pattern) : Prop := ∃ found, ((p.templates : InMemory _) w).1 = .ok found

/-- The pattern stands for `t` among others. -/
def Finds (w : World) (p : Pattern) (t : Bytes) : Prop :=
  ∃ found, ((p.templates : InMemory _) w).1 = .ok found ∧ t ∈ found

theorem finds_iff (h : ((p.templates : InMemory _) w).1 = .ok ts) : Finds w p t ↔ t ∈ ts := by
  constructor
  · rintro ⟨found, same, mem⟩
    cases h.symm.trans same
    exact mem
  · exact fun mem => ⟨ts, h, mem⟩

theorem succeeds_of_templatesOf (h : ((templatesOf ps : InMemory _) w).1 = .ok ts) :
    (∀ p ∈ ps, Succeeds w p) ∧ ∀ t, t ∈ ts ↔ ∃ p ∈ ps, Finds w p t := by
  induction ps generalizing ts with
  | nil =>
    cases h
    exact ⟨nofun, by simp⟩
  | cons p ps ih =>
    obtain ⟨first, rest, here, later, rfl⟩ := templatesOf_cons.mp h
    obtain ⟨able, listed⟩ := ih later
    refine ⟨List.forall_mem_cons.mpr ⟨⟨first, here⟩, able⟩, fun t => ?_⟩
    rw [List.mem_append, listed, ← finds_iff here, List.exists_mem_cons_iff]

theorem templatesOf_of_succeeds (h : ∀ p ∈ ps, Succeeds w p) :
    ∃ ts, ((templatesOf ps : InMemory _) w).1 = .ok ts := by
  induction ps with
  | nil => exact ⟨[], rfl⟩
  | cons p ps ih =>
    rw [List.forall_mem_cons] at h
    obtain ⟨first, here⟩ := h.1
    obtain ⟨rest, later⟩ := ih h.2
    exact ⟨_, templatesOf_cons.mpr ⟨first, rest, here, later, rfl⟩⟩

end
end Pattern

/-- Increasing lists are equal if they have the same members. -/
theorem Increasing.eq_of_mem_iff {ts us : List Bytes} (first : Increasing ts) (second : Increasing us)
    (same : ∀ t, t ∈ ts ↔ t ∈ us) : ts = us := by
  have irreflexive : Std.Irrefl fun s t : Bytes => t.le s = false :=
    ⟨fun s => by rcases Bytes.le_total s s with le | le <;> simp [le]⟩
  have antisymmetric : Std.Antisymm fun s t : Bytes => t.le s = false :=
    ⟨fun s t below above => by rcases Bytes.le_total s t with le | le <;> simp_all⟩
  exact List.Pairwise.eq_of_mem_iff first second same

namespace World
variable {w : World} {dir : Bytes} {texts ps qs ts : List Bytes}

/-- The templates that some texts stand for in the directory `dir`. -/
def found (w : World) (dir : Bytes) (texts : List Bytes) : Except DiscoveryError (List Bytes) :=
  ((findTemplates dir texts : InMemory _) w).1

/-- What texts stand for is what each of their patterns stands for, in increasing order. -/
theorem found_iff : w.found dir texts = .ok ts ↔
    (∀ p ∈ Pattern.ofTexts dir texts, p.Succeeds w) ∧ Increasing ts ∧
      ∀ t, t ∈ ts ↔ ∃ p ∈ Pattern.ofTexts dir texts, p.Finds w t := by
  rw [found, findTemplates_ok]
  constructor
  · rintro ⟨found, listed, rfl⟩
    obtain ⟨able, members⟩ := Pattern.succeeds_of_templatesOf listed
    exact ⟨able, increasing_sortedSet found, fun t => mem_sortedSet.trans (members t)⟩
  · rintro ⟨able, increasing, members⟩
    obtain ⟨found, listed⟩ := Pattern.templatesOf_of_succeeds able
    refine ⟨found, listed, increasing.eq_of_mem_iff (increasing_sortedSet found) fun t => ?_⟩
    rw [members, mem_sortedSet, (Pattern.succeeds_of_templatesOf listed).2]

theorem found_of_succeeds (h : ∀ p ∈ Pattern.ofTexts dir texts, p.Succeeds w) :
    ∃ ts, w.found dir texts = .ok ts := by
  obtain ⟨found, listed⟩ := Pattern.templatesOf_of_succeeds h
  exact ⟨sortedSet found, findTemplates_ok.mpr ⟨found, listed, rfl⟩⟩

theorem found_append : w.found dir (ps ++ qs) = .ok ts ↔
    ∃ as bs, w.found dir ps = .ok as ∧ w.found dir qs = .ok bs ∧ Increasing ts ∧
      ∀ t, t ∈ ts ↔ t ∈ as ∨ t ∈ bs := by
  have split : Pattern.ofTexts dir (ps ++ qs) = Pattern.ofTexts dir ps ++ Pattern.ofTexts dir qs := by
    simp [Pattern.ofTexts]
  have members {as bs : List Bytes} (first : w.found dir ps = .ok as) (second : w.found dir qs = .ok bs)
      (t : Bytes) : (∃ p ∈ Pattern.ofTexts dir (ps ++ qs), p.Finds w t) ↔ t ∈ as ∨ t ∈ bs := by
    rw [(found_iff.mp first).2.2, (found_iff.mp second).2.2, split]
    simp only [List.mem_append, or_and_right, exists_or]
  constructor
  · intro h
    obtain ⟨able, increasing, listed⟩ := found_iff.mp h
    rw [split, List.forall_mem_append] at able
    obtain ⟨as, first⟩ := found_of_succeeds able.1
    obtain ⟨bs, second⟩ := found_of_succeeds able.2
    exact ⟨as, bs, first, second, increasing, fun t => (listed t).trans (members first second t)⟩
  · rintro ⟨as, bs, first, second, increasing, listed⟩
    refine found_iff.mpr ⟨?_, increasing, fun t => (listed t).trans (members first second t).symm⟩
    rw [split, List.forall_mem_append]
    exact ⟨(found_iff.mp first).1, (found_iff.mp second).1⟩

/-- Neither the order of patterns nor their repetition matters. -/
theorem found_of_same_texts (same : ∀ text, text ∈ ps ↔ text ∈ qs) (h : w.found dir ps = .ok ts) :
    w.found dir qs = .ok ts := by
  have patterns (p : Pattern) : p ∈ Pattern.ofTexts dir ps ↔ p ∈ Pattern.ofTexts dir qs := by
    rw [Pattern.mem_ofTexts, Pattern.mem_ofTexts]
    exact exists_congr fun text => and_congr_left fun _ => same text
  rw [found_iff] at h ⊢
  simpa only [patterns] using h

/-- As seen from an absolute directory, each template is the path of one file of the tree. -/
theorem found_files (tree : w.files.root.IsTree) (rooted : isAbsolute dir = true)
    (h : w.found dir texts = .ok ts) :
    ∀ t ∈ ts, ∃ place content, IsPlace place ∧ t = ofNames true place ∧
      w.files.root.get? place = some (.file content) := by
  intro t mem
  obtain ⟨p, listed, found, selected, there⟩ := ((found_iff.mp h).2.2 t).mp mem
  obtain ⟨text, -, -, rfl⟩ := Pattern.mem_ofTexts.mp listed
  obtain ⟨q, placed, starts⟩ := Pattern.path_ofText rooted (Bytes.trim text)
  obtain ⟨e, entry, same⟩ := Pattern.select_of_templates selected
  rw [starts] at entry
  exact Pattern.select_file tree starts ((entry_ok placed).mp entry).1 same t there

theorem found_single {text : Bytes} (bare : Bytes.trim text = text) (nonempty : text ≠ [])
    (h : w.found dir [text] = .ok ts) {e : Entry}
    (entry : w.files.entry (Pattern.ofText dir text).path = .ok e) :
    ∃ found, (Pattern.ofText dir text).select e = .ok found ∧ ∀ t, t ∈ ts ↔ t ∈ found := by
  obtain ⟨able, -, members⟩ := found_iff.mp h
  rw [Pattern.ofTexts_single bare nonempty] at able members
  obtain ⟨found, listed⟩ := able _ List.mem_cons_self
  obtain ⟨e', entry', selected⟩ := Pattern.select_of_templates listed
  cases entry.symm.trans entry'
  refine ⟨found, selected, fun t => ?_⟩
  rw [members, ← Pattern.finds_iff listed]
  simp

theorem exists_found_single {text : Bytes} (bare : Bytes.trim text = text) (nonempty : text ≠ [])
    (free : ∀ op path, w.refuses op path = none) {inner : Folder}
    (entry : w.files.entry (Pattern.ofText dir text).path = .ok (.folder inner)) :
    ∃ ts, w.found dir [text] = .ok ts := by
  refine found_of_succeeds ?_
  rw [Pattern.ofTexts_single bare nonempty, List.forall_mem_singleton, Pattern.Succeeds,
    Pattern.templates_free free entry]
  cases Pattern.ofText dir text <;> exact ⟨_, rfl⟩

section Directory
variable {d : Bytes} {inner : Folder} (tree : w.files.root.IsTree) (nonempty : d ≠ [])
  (bare : Bytes.trim d = d) (entry : w.files.entry (Pattern.resolve dir d) = .ok (.folder inner))
include tree nonempty bare entry

omit nonempty bare in
theorem isTree_of_entry : inner.IsTree := by
  obtain ⟨q, -, there⟩ := entry_eq_ok.mp entry
  exact (tree.of_get? there).2

/-- A directory stands for the templates that lie directly in it. -/
theorem found_directory (plain : d ≠ Pattern.dots) (closed : ¬slash :: Pattern.dots <:+ d) :
    (∀ ts, w.found dir [d] = .ok ts → ∀ t, t ∈ ts ↔ inner.HasTemplate (Pattern.resolve dir d) t) ∧
    ((∀ op path, w.refuses op path = none) → ∃ ts, w.found dir [d] = .ok ts) := by
  have there : w.files.entry (Pattern.ofText dir d).path = .ok (.folder inner) := by
    rwa [Pattern.ofText_place plain closed]
  refine ⟨fun ts h t => ?_, fun free => exists_found_single bare nonempty free there⟩
  obtain ⟨found, selected, members⟩ := found_single bare nonempty h there
  rw [Pattern.ofText_place plain closed] at selected
  rw [members, Pattern.mem_select_place (isTree_of_entry tree entry) selected]

/-- With dots behind it, a directory stands for the templates in it and below. -/
theorem found_tree :
    (∀ ts, w.found dir [d ++ slash :: Pattern.dots] = .ok ts → ∀ t, t ∈ ts ↔
      inner.ReachesTemplate (Pattern.resolve dir d) t) ∧
    ((∀ op path, w.refuses op path = none) →
      ∃ ts, w.found dir [d ++ slash :: Pattern.dots] = .ok ts) := by
  have filled : d ++ slash :: Pattern.dots ≠ [] := by simp
  have there : w.files.entry (Pattern.ofText dir (d ++ slash :: Pattern.dots)).path =
      .ok (.folder inner) := by
    rwa [Pattern.ofText_tree nonempty]
  refine ⟨fun ts h t => ?_, fun free => exists_found_single (Bytes.trim_dots bare) filled free there⟩
  obtain ⟨found, selected, members⟩ := found_single (Bytes.trim_dots bare) filled h there
  rw [Pattern.ofText_tree nonempty] at selected
  rw [members,
    Pattern.mem_select_tree (isTree_of_entry tree entry) (Pattern.resolve_ne_nil nonempty) selected]

end Directory

/-- Finding templates is a sorted union over the patterns, in every tree. -/
theorem found_sorted_union (w : World) (dir : Bytes) (tree : w.files.root.IsTree) :
    (∀ ps ts, w.found dir ps = .ok ts → Increasing ts ∧
      (isAbsolute dir = true → ∀ t ∈ ts, ∃ place content, IsPlace place ∧ t = ofNames true place ∧
        w.files.root.get? place = some (.file content))) ∧
    (∀ ps qs ts, w.found dir (ps ++ qs) = .ok ts ↔
      ∃ as bs, w.found dir ps = .ok as ∧ w.found dir qs = .ok bs ∧ Increasing ts ∧
        ∀ t, t ∈ ts ↔ t ∈ as ∨ t ∈ bs) ∧
    (∀ ps qs ts, (∀ text, text ∈ ps ↔ text ∈ qs) → w.found dir ps = .ok ts → w.found dir qs = .ok ts) ∧
    ∀ d inner, d ≠ [] → Bytes.trim d = d →
      w.files.entry (Pattern.resolve dir d) = .ok (.folder inner) →
      (d ≠ Pattern.dots → ¬slash :: Pattern.dots <:+ d →
        (∀ ts, w.found dir [d] = .ok ts → ∀ t, t ∈ ts ↔ inner.HasTemplate (Pattern.resolve dir d) t) ∧
        ((∀ op path, w.refuses op path = none) → ∃ ts, w.found dir [d] = .ok ts)) ∧
      (∀ ts, w.found dir [d ++ slash :: Pattern.dots] = .ok ts → ∀ t, t ∈ ts ↔
        inner.ReachesTemplate (Pattern.resolve dir d) t) ∧
      ((∀ op path, w.refuses op path = none) →
        ∃ ts, w.found dir [d ++ slash :: Pattern.dots] = .ok ts) := by
  refine ⟨fun ps ts h => ⟨(found_iff.mp h).2.1, fun rooted => found_files tree rooted h⟩,
    fun ps qs ts => found_append, fun ps qs ts => found_of_same_texts,
    fun d inner nonempty bare entry => ⟨fun plain closed => ?_, ?_⟩⟩
  · exact found_directory tree nonempty bare entry plain closed
  · exact found_tree tree nonempty bare entry

/-- Templates in a directory, in a directory below it and in one that is skipped. -/
def viewFolder : Folder :=
  .folder (utf8 "vendor") (.file (utf8 "q.erb") [] .empty)
    (.folder (utf8 "s") (.file (utf8 "c.erb") [] .empty) (.file (utf8 "a.erb") [] .empty))

def views : World where
  files := ⟨.folder (utf8 "v") viewFolder .empty, []⟩

theorem found_sorted_union_views :
    views.files.root.IsTree ∧
    views.files.entry (Pattern.resolve (utf8 "/") (utf8 "v")) = .ok (.folder viewFolder) ∧
    views.found (utf8 "/") [utf8 "v/...", utf8 "./v"] = .ok [utf8 "/v/a.erb", utf8 "/v/s/c.erb"] ∧
    Increasing [utf8 "/v/a.erb", utf8 "/v/s/c.erb"] ∧
    ∃ ts, views.found (utf8 "/") [utf8 "v"] = .ok ts ∧
      ∀ t, t ∈ ts ↔ viewFolder.HasTemplate (Pattern.resolve (utf8 "/") (utf8 "v")) t := by
  have tree : views.files.root.IsTree := by decide +kernel
  have entry : views.files.entry (Pattern.resolve (utf8 "/") (utf8 "v")) = .ok (.folder viewFolder) := by
    decide +kernel
  have both : views.found (utf8 "/") [utf8 "v/...", utf8 "./v"] =
      .ok [utf8 "/v/a.erb", utf8 "/v/s/c.erb"] := by decide +kernel
  obtain ⟨sorted, -, -, directory⟩ := found_sorted_union views (utf8 "/") tree
  obtain ⟨listed, -⟩ := directory (utf8 "v") viewFolder (by decide) (by decide +kernel) entry
  obtain ⟨exact_, able⟩ := listed (by decide) (by decide)
  obtain ⟨ts, found⟩ := able fun _ _ => rfl
  exact ⟨tree, entry, both, (sorted _ _ both).1, ts, found, exact_ ts found⟩

/-- A directory that is called as the dots of patterns are. -/
def dotted : World where
  files := ⟨.folder Pattern.dots (.file (utf8 "a.erb") [] .empty) (.file (utf8 "b.erb") [] .empty), []⟩

/-- Such a directory cannot be given by its name alone. -/
theorem found_dots_elsewhere :
    dotted.files.root.IsTree ∧ Bytes.trim Pattern.dots = Pattern.dots ∧
    dotted.files.entry (Pattern.resolve (utf8 "/") Pattern.dots) =
      .ok (.folder (.file (utf8 "a.erb") [] .empty)) ∧
    dotted.found (utf8 "/") [Pattern.dots] = .ok [utf8 "/b.erb"] ∧
    ¬∀ t, t ∈ [utf8 "/b.erb"] ↔
      (Folder.file (utf8 "a.erb") [] .empty).HasTemplate (Pattern.resolve (utf8 "/") Pattern.dots) t := by
  refine ⟨by decide +kernel, by decide +kernel, by decide +kernel, by decide +kernel, fun claimed => ?_⟩
  have listed := (claimed (utf8 "/.../a.erb")).mpr
    ⟨utf8 "a.erb", [], by decide +kernel, by decide +kernel, by decide +kernel⟩
  exact absurd listed (by decide +kernel)

end World

end DomTemplate
