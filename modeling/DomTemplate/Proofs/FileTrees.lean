import DomTemplate.Files.FileTree
import DomTemplate.Proofs.Paths
import DomTemplate.Proofs.Results

/-! Trees of files as maps from places. Putting a file at a place changes what stands there and
nothing else, and taking away a file that was put where nothing stood leaves the tree as it was. An
absolute path leads to the place that its names give, if there is a folder for it. -/

namespace DomTemplate
open Ascii

def Entry.content? : Entry → Option Bytes
  | file content => some content
  | folder _ => none

/-- What stands below an entry. -/
def Entry.below : Entry → List Bytes → Option Entry
  | file content, names => if names = [] then some (.file content) else none
  | folder inner, names => inner.get? names

namespace Folder
variable {d : Folder} {name : Bytes} {place : List Bytes}

/-- What stands at a place: nothing, a folder, or a file with its content. -/
def at? (d : Folder) (place : List Bytes) : Option (Option Bytes) := (d.get? place).map Entry.content?

theorem get?_cons (d : Folder) (name : Bytes) (names : List Bytes) :
    d.get? (name :: names) = (d.find? name).bind (·.below names) := by
  rw [get?]
  cases d.find? name with
  | none => rfl
  | some e => cases e <;> rfl

@[elab_as_elim]
theorem ofAdds {motive : Folder → Prop} (empty : motive .empty)
    (more : ∀ name rest e, motive rest → motive (add name rest e)) (d : Folder) : motive d := by
  induction d with
  | empty => exact empty
  | file name content rest ih => exact more name rest (.file content) ih
  | folder name inner rest _ ih => exact more name rest (.folder inner) ih

theorem find?_add (n m : Bytes) (rest : Folder) (e : Entry) :
    (add n rest e).find? m = if n = m then some e else rest.find? m := by
  cases e <;> rfl

theorem alterName_empty (f : Option Entry → Option Entry) :
    empty.alterName name f = (f none).elim empty (add name empty) := by
  rw [alterName]
  cases f none <;> rfl

theorem alterName_add (n : Bytes) (rest : Folder) (e : Entry) (f : Option Entry → Option Entry) :
    (add n rest e).alterName name f =
      if n = name then (f (some e)).elim rest (add name rest)
      else add n (rest.alterName name f) e := by
  cases e with
  | file content =>
    rw [add, alterName]
    cases f (some (.file content)) <;> rfl
  | folder inner =>
    rw [add, alterName]
    cases f (some (.folder inner)) <;> rfl

section Names
variable {f g : Option Entry → Option Entry}

theorem find?_alterName_of_ne {m : Bytes} (other : name ≠ m) (f : Option Entry → Option Entry) :
    (d.alterName name f).find? m = d.find? m := by
  induction d using ofAdds with
  | empty =>
    rw [alterName_empty]
    cases f none with
    | none => rfl
    | some e => rw [Option.elim_some, find?_add, if_neg other]
  | more n rest e ih =>
    rw [alterName_add, find?_add]
    split_ifs with here found found
    · exact absurd (here.symm.trans found) other
    · cases f (some e) with
      | none => rfl
      | some e => rw [Option.elim_some, find?_add, if_neg other]
    · rw [find?_add, if_pos found]
    · rw [find?_add, if_neg found, ih]

theorem find?_alterName {e : Entry} (h : f (d.find? name) = some e) :
    (d.alterName name f).find? name = some e := by
  induction d using ofAdds with
  | empty =>
    rw [find?] at h
    rw [alterName_empty, h, Option.elim_some, find?_add, if_pos rfl]
  | more n rest old ih =>
    rw [find?_add] at h
    rw [alterName_add]
    split_ifs at h ⊢ with here
    · rw [h, Option.elim_some, find?_add, if_pos rfl]
    · rw [find?_add, if_neg here, ih h]

theorem alterName_self (h : f (d.find? name) = d.find? name) : d.alterName name f = d := by
  induction d using ofAdds with
  | empty =>
    rw [find?] at h
    rw [alterName_empty, h]
    rfl
  | more n rest e ih =>
    rw [find?_add] at h
    rw [alterName_add]
    split_ifs at h ⊢ with here
    · rw [h, Option.elim_some, here]
    · rw [ih h]

/-- Two changes of one entry are one. -/
theorem alterName_alterName (h : f (d.find? name) ≠ none) :
    (d.alterName name f).alterName name g = d.alterName name fun e => g (f e) := by
  induction d using ofAdds with
  | empty =>
    rw [find?] at h
    obtain ⟨made, same⟩ := Option.ne_none_iff_exists'.mp h
    rw [alterName_empty, alterName_empty, same, Option.elim_some, alterName_add, if_pos rfl]
  | more n rest e ih =>
    rw [find?_add] at h
    rw [alterName_add, alterName_add]
    split_ifs at h ⊢ with here
    · obtain ⟨made, same⟩ := Option.ne_none_iff_exists'.mp h
      rw [same, Option.elim_some, alterName_add, if_pos rfl]
    · rw [alterName_add, if_neg here, ih h]

end Names

/-- The change of an entry that changes what stands below it. -/
def within (change : Option Entry → Option Entry) (names : List Bytes) : Option Entry → Option Entry
  | some (.folder inner) => some (.folder (alter change names inner))
  | e => e

theorem alter_cons (change : Option Entry → Option Entry) (name next : Bytes) (names : List Bytes)
    (d : Folder) :
    alter change (name :: next :: names) d = d.alterName name (within change (next :: names)) := by
  rw [alter, if_neg (List.cons_ne_nil _ _)]
  congr 1

theorem alter_singleton (change : Option Entry → Option Entry) (name : Bytes) (d : Folder) :
    alter change [name] d = d.alterName name change := by
  rw [alter, if_pos rfl]

/-- A change that keeps what stands at a place keeps the tree. -/
theorem alter_self {f : Option Entry → Option Entry} (h : f (d.get? place) = d.get? place) :
    alter f place d = d := by
  induction place generalizing d with
  | nil => rfl
  | cons name names ih =>
    cases names with
    | nil =>
      rw [alter_singleton]
      refine alterName_self ?_
      rw [get?_cons] at h
      cases found : d.find? name with
      | none => rwa [found] at h
      | some e =>
        rw [found] at h
        cases e <;> exact h
    | cons next names =>
      rw [alter_cons]
      refine alterName_self ?_
      rw [get?_cons] at h
      cases found : d.find? name with
      | none => rfl
      | some e =>
        rw [found] at h
        cases e with
        | file content => rfl
        | folder inner => exact congrArg (fun inner => some (Entry.folder inner)) (ih h)

theorem alter_put (g : Option Entry → Option Entry) (e : Entry) :
    alter g place (d.put place e) = alter (fun _ => g (some e)) place d := by
  induction place generalizing d with
  | nil => rfl
  | cons name names ih =>
    cases names with
    | nil =>
      rw [put, alter_singleton, alter_singleton, alter_singleton]
      exact alterName_alterName (Option.some_ne_none e)
    | cons next names =>
      rw [put, alter_cons, alter_cons, alter_cons]
      cases found : d.find? name with
      | none =>
        -- without the name there is nothing to change below it
        have absent (f : Option Entry → Option Entry) :
            d.alterName name (within f (next :: names)) = d := alterName_self (by rw [found]; rfl)
        rw [absent, absent, absent]
      | some entry =>
        rw [alterName_alterName (by rw [found]; cases entry <;> exact Option.some_ne_none _)]
        congr 1
        funext x
        rcases x with _ | ⟨_ | _⟩
        · rfl
        · rfl
        · exact congrArg (fun inner => some (Entry.folder inner)) ih

/-- A file that is put where nothing stood, filled and taken away leaves nothing behind. -/
theorem erase_put (absent : d.at? place = none) (e : Entry) : (d.put place e).erase place = d := by
  rw [erase, alter_put]
  exact alter_self (Option.map_eq_none_iff.mp absent).symm

theorem put_put (e e' : Entry) : (d.put place e).put place e' = d.put place e' := by
  rw [put, alter_put]
  rfl

theorem put_self {content : Bytes} (h : d.get? place = some (.file content)) :
    d.put place (.file content) = d := alter_self h.symm

theorem at?_nil (d : Folder) : d.at? [] = some none := by rw [at?, get?]; rfl

theorem at?_eq_folder : d.at? place = some none ↔ ∃ inner, d.get? place = some (.folder inner) := by
  rw [at?, Option.map_eq_some_iff]
  constructor
  · rintro ⟨_ | inner, found, same⟩
    · cases same
    · exact ⟨inner, found⟩
  · rintro ⟨inner, found⟩
    exact ⟨_, found, rfl⟩

theorem at?_eq_file {content : Bytes} :
    d.at? place = some (some content) ↔ d.get? place = some (.file content) := by
  rw [at?, Option.map_eq_some_iff]
  constructor
  · rintro ⟨_ | inner, found, same⟩
    · cases same
      exact found
    · cases same
  · exact fun found => ⟨_, found, rfl⟩

theorem at?_eq_none : d.at? place = none ↔ d.get? place = none := Option.map_eq_none_iff

theorem get?_append (d : Folder) (front back : List Bytes) :
    d.get? (front ++ back) = (d.get? front).bind (·.below back) := by
  induction front generalizing d with
  | nil => rfl
  | cons name front ih =>
    rw [List.cons_append, get?_cons, get?_cons]
    cases d.find? name with
    | none => rfl
    | some e =>
      cases e with
      | folder inner => exact ih inner
      | file content =>
        cases front with
        | nil => rfl
        | cons next front => rfl

/-- Above everything there is a folder. -/
theorem at?_front {front : List Bytes} (h : d.at? (front ++ name :: place) ≠ none) :
    d.at? front = some none := by
  rw [ne_eq, at?_eq_none, get?_append] at h
  rw [at?_eq_folder]
  cases found : d.get? front with
  | none => simp [found] at h
  | some e =>
    cases e with
    | folder inner => exact ⟨inner, rfl⟩
    | file content => simp [found, Entry.below] at h

section Put
variable {e : Entry} {content next : Bytes} {names : List Bytes} {inner : Folder}

theorem at?_cons_folder : d.at? (name :: names) = some none ↔
    ∃ inner, d.find? name = some (.folder inner) ∧ inner.at? names = some none := by
  rw [at?, get?_cons]
  cases d.find? name with
  | none => simp
  | some e =>
    cases e with
    | file content => by_cases last : names = [] <;> simp [Entry.below, Entry.content?, last]
    | folder inner => simp [Entry.below, at?]

/-- Below a name that leads to no folder, nothing can be put. -/
theorem put_of_no_folder (h : ¬∃ inner, d.find? name = some (.folder inner)) :
    d.put (name :: next :: names) e = d := by
  rw [put, alter_cons]
  refine alterName_self ?_
  cases entry : d.find? name with
  | none => rfl
  | some old =>
    cases old with
    | file content => rfl
    | folder inner => exact absurd ⟨inner, entry⟩ h

theorem find?_put (entry : d.find? name = some (.folder inner)) :
    (d.put (name :: next :: names) e).find? name = some (.folder (inner.put (next :: names) e)) := by
  rw [put, alter_cons]
  refine find?_alterName ?_
  rw [entry]
  rfl

theorem find?_put_of_ne {m : Bytes} (other : name ≠ m) : (d.put (name :: names) e).find? m = d.find? m := by
  rw [put]
  cases names with
  | nil => rw [alter_singleton, find?_alterName_of_ne other]
  | cons next names => rw [alter_cons, find?_alterName_of_ne other]

/-- The place itself holds what was put there, if there is a folder for it. -/
theorem get?_put (parent : d.at? place = some none) :
    (d.put (place ++ [name]) e).get? (place ++ [name]) = some e := by
  induction place generalizing d with
  | nil =>
    rw [List.nil_append, put, alter_singleton, get?_cons, find?_alterName rfl]
    cases e <;> rfl
  | cons first place ih =>
    obtain ⟨inner, entry, folder⟩ := at?_cons_folder.mp parent
    have deeper := ih folder
    obtain ⟨next, names, rest⟩ : ∃ next names, place ++ [name] = next :: names :=
      List.exists_cons_of_ne_nil (by simp)
    rw [List.cons_append, rest, get?_cons, find?_put entry]
    rwa [rest] at deeper

/-- Every other place is as it was, if nothing stands below what is put. -/
theorem at?_put_leaf {q : List Bytes} (leaf : ∀ n names, e.below (n :: names) = none)
    (free : d.at? place ≠ some none) (other : q ≠ place) : (d.put place e).at? q = d.at? q := by
  induction place generalizing d q with
  | nil => rfl
  | cons name names ih =>
    cases q with
    | nil => rw [at?_nil, at?_nil]
    | cons m ms =>
      rw [at?, at?, get?_cons, get?_cons]
      by_cases same : name = m
      · subst same
        have later : ms ≠ names := fun same => other (by rw [same])
        cases names with
        | nil =>
          obtain ⟨m, ms, rfl⟩ := List.exists_cons_of_ne_nil later
          rw [put, alter_singleton, find?_alterName rfl]
          cases entry : d.find? name with
          | none => simp [leaf]
          | some old =>
            cases old with
            | file content => rw [Option.bind_some, leaf, Option.bind_some]; rfl
            -- a folder would be lost with all that is in it
            | folder inner => exact absurd (at?_cons_folder.mpr ⟨inner, entry, at?_nil inner⟩) free
        | cons next names =>
          by_cases folder : ∃ inner, d.find? name = some (.folder inner)
          · obtain ⟨inner, entry⟩ := folder
            rw [find?_put entry, entry]
            exact ih (fun below => free (at?_cons_folder.mpr ⟨inner, entry, below⟩)) later
          · rw [put_of_no_folder folder]
      · rw [find?_put_of_ne same]

theorem at?_put_of_ne {q : List Bytes} (free : d.at? place ≠ some none) (other : q ≠ place) :
    (d.put place (.file content)).at? q = d.at? q := at?_put_leaf (fun _ _ => rfl) free other

theorem at?_put_new {q : List Bytes} (absent : d.at? place = none) (other : q ≠ place) :
    (d.put place (.file content)).at? q = d.at? q :=
  at?_put_of_ne (by rw [absent]; simp) other

/-- What a file that is put does to a folder above it or elsewhere. -/
theorem get?_put_folder {q : List Bytes} (free : d.at? place ≠ some none)
    (found : d.get? q = some (.folder inner)) :
    ∃ inner', (d.put place (.file content)).get? q = some (.folder inner') ∧
      (inner' = inner ∨ ∃ rest, place = q ++ rest ∧ inner.at? rest ≠ some none ∧
        inner' = inner.put rest (.file content)) := by
  induction q generalizing d place with
  | nil =>
    cases found
    exact ⟨_, rfl, .inr ⟨place, rfl, free, rfl⟩⟩
  | cons name names ih =>
    rcases place with _ | ⟨m, ms⟩
    · exact ⟨inner, found, .inl rfl⟩
    by_cases same : m = name
    · subst same
      obtain ⟨below, entry, -⟩ := at?_cons_folder.mp (at?_eq_folder.mpr ⟨inner, found⟩)
      rw [get?_cons, entry] at found
      cases ms with
      | nil => exact absurd (at?_cons_folder.mpr ⟨below, entry, at?_nil below⟩) free
      | cons next ms =>
        obtain ⟨inner', here, shape⟩ :=
          ih (fun folder => free (at?_cons_folder.mpr ⟨below, entry, folder⟩)) found
        refine ⟨inner', ?_, shape.imp_right ?_⟩
        · rw [get?_cons, find?_put entry]
          exact here
        · rintro ⟨rest, split, rest_free, made⟩
          exact ⟨rest, by rw [split]; rfl, rest_free, made⟩
    · refine ⟨inner, ?_, .inl rfl⟩
      rw [get?_cons, find?_put_of_ne same, ← get?_cons, found]

end Put

section Listing

/-- The entries of a folder with their names. -/
def entries : Folder → List (Bytes × Entry)
  | empty => []
  | file name content rest => (name, .file content) :: entries rest
  | folder name inner rest => (name, .folder inner) :: entries rest

theorem entries_add (n : Bytes) (rest : Folder) (e : Entry) :
    (add n rest e).entries = (n, e) :: rest.entries := by
  cases e <;> rfl

/-- A listing of the entries is as before, if it is so for the entry that is changed. -/
theorem filter_listing {α : Type} (list : Bytes × Entry → List α) (p : α → Bool)
    {f : Option Entry → Option Entry} {e : Entry} (made : f (d.find? name) = some e)
    (same : (list (name, e)).filter p =
      ((d.find? name).elim [] fun old => list (name, old)).filter p) :
    ((d.alterName name f).entries.flatMap list).filter p = (d.entries.flatMap list).filter p := by
  induction d using ofAdds with
  | empty =>
    rw [find?] at made same
    rw [alterName_empty, made, Option.elim_some, entries_add, entries]
    simpa using same
  | more n rest old ih =>
    rw [find?_add] at made same
    rw [alterName_add]
    split_ifs at made same ⊢ with here
    · rw [made, Option.elim_some, entries_add, entries_add, here, List.flatMap_cons, List.flatMap_cons,
        List.filter_append, List.filter_append]
      exact congrArg (· ++ _) same
    · rw [entries_add, entries_add, List.flatMap_cons, List.flatMap_cons, List.filter_append,
        List.filter_append, ih made same]

def listNames : Bytes × Entry → List Bytes
  | (name, .file _) => [name]
  | (_, .folder _) => []

def listPlaces (skip : Bytes → Bool) : Bytes × Entry → List (List Bytes)
  | (name, .file _) => [[name]]
  | (name, .folder inner) => if skip name then [] else (inner.places skip).map (name :: ·)

theorem fileNames_eq (d : Folder) : d.fileNames = d.entries.flatMap listNames := by
  induction d with
  | empty => rfl
  | file name content rest ih => rw [fileNames, ih]; rfl
  | folder name inner rest _ ih => rw [fileNames, ih]; rfl

theorem places_eq (skip : Bytes → Bool) (d : Folder) :
    d.places skip = d.entries.flatMap (listPlaces skip) := by
  induction d with
  | empty => rfl
  | file name content rest ih => rw [places, ih]; rfl
  | folder name inner rest _ ih => rw [places, ih]; rfl

variable {content : Bytes}

/-- A listing that `p` selects from does not tell of a file in the folder that it does not select. -/
theorem filter_put_file {α : Type} (list : Bytes × Entry → List α) {p : α → Bool}
    (alike : ∀ old new, list (name, .file old) = list (name, .file new))
    (dropped : (list (name, .file content)).filter p = []) (free : d.at? [name] ≠ some none) :
    ((d.put [name] (.file content)).entries.flatMap list).filter p =
      (d.entries.flatMap list).filter p := by
  rw [put, alter_singleton]
  refine filter_listing list p rfl ?_
  cases entry : d.find? name with
  | none => exact dropped
  | some e =>
    cases e with
    | file old => exact congrArg (List.filter p) (alike content old)
    | folder inner => exact absurd (at?_cons_folder.mpr ⟨inner, entry, at?_nil inner⟩) free

/-- Of the files in a folder, those that `p` selects are the same after a file is put that it does
not select. -/
theorem filter_fileNames_put {p : Bytes → Bool} (free : d.at? place ≠ some none)
    (hidden : ∀ name, place.getLast? = some name → p name = false) :
    (d.put place (.file content)).fileNames.filter p = d.fileNames.filter p := by
  rcases place with _ | ⟨name, _ | ⟨next, names⟩⟩
  · rfl
  · rw [fileNames_eq, fileNames_eq]
    exact filter_put_file listNames (fun _ _ => rfl) (by simp [listNames, hidden name rfl]) free
  · by_cases folder : ∃ inner, d.find? name = some (.folder inner)
    · obtain ⟨inner, entry⟩ := folder
      rw [fileNames_eq, fileNames_eq, put, alter_cons]
      refine filter_listing listNames p
        (e := .folder (inner.put (next :: names) (.file content))) (by rw [entry]; rfl) ?_
      rw [entry]
      rfl
    · rw [put_of_no_folder folder]

theorem filter_places_put {p : List Bytes → Bool} (skip : Bytes → Bool) (free : d.at? place ≠ some none)
    (hidden : p place = false) :
    ((d.put place (.file content)).places skip).filter p = (d.places skip).filter p := by
  induction place generalizing d p with
  | nil => rfl
  | cons name names ih =>
    cases names with
    | nil =>
      rw [places_eq, places_eq]
      exact filter_put_file (listPlaces skip) (fun _ _ => rfl) (by simp [listPlaces, hidden]) free
    | cons next names =>
      by_cases folder : ∃ inner, d.find? name = some (.folder inner)
      · obtain ⟨inner, entry⟩ := folder
        have deeper : inner.at? (next :: names) ≠ some none :=
          fun below => free (at?_cons_folder.mpr ⟨inner, entry, below⟩)
        rw [places_eq, places_eq, put, alter_cons]
        refine filter_listing (listPlaces skip) p
          (e := .folder (inner.put (next :: names) (.file content))) (by rw [entry]; rfl) ?_
        rw [entry, Option.elim_some, listPlaces, listPlaces]
        split
        · rfl
        · rw [List.filter_map, List.filter_map, ih deeper hidden]
      · rw [put_of_no_folder folder]

end Listing
end Folder

namespace Bytes

theorem splitOn_join {sep : UInt8} {pieces : List Bytes} (nonempty : pieces ≠ [])
    (whole : ∀ piece ∈ pieces, sep ∉ piece) : splitOn sep (join [sep] pieces) = pieces := by
  induction pieces with
  | nil => exact absurd rfl nonempty
  | cons first rest ih =>
    rw [List.forall_mem_cons] at whole
    cases rest with
    | nil =>
      rw [join, List.intercalate, List.intersperse_singleton, List.flatten_singleton]
      exact splitOn_of_not_mem whole.1
    | cons next rest =>
      have joined : join [sep] (first :: next :: rest) = first ++ sep :: join [sep] (next :: rest) := by
        simp [join, List.intercalate]
      rw [joined, splitOn_append, splitOn_of_not_mem whole.1, ih (List.cons_ne_nil _ _) whole.2]
      rfl

end Bytes

namespace FileTree
open DomTemplate.Path
variable {t : FileTree} {root : Folder} {place : List Bytes} {name : Bytes}

theorem follow_nil_cons (root : Folder) (names : List Bytes) :
    follow root [] ([] :: names) = follow root [] names := by
  rw [follow, Folder.get?]
  rfl

theorem follow_ofNames (h : IsPlace place) :
    follow root [] (Bytes.splitOn slash (ofNames true place)) = follow root [] place := by
  rw [ofNames, if_pos rfl]
  cases place with
  | nil => exact (follow_nil_cons root [[]]).trans (follow_nil_cons root [])
  | cons first rest =>
    have pieces := Bytes.splitOn_join (List.cons_ne_nil first rest) fun n mem => (h n mem).whole
    rw [Bytes.splitOn, if_pos rfl, pieces, follow_nil_cons]

theorem follow_name (named : IsName name) (names : List Bytes) (folder : root.at? place = some none) :
    follow root place (name :: names) =
      if longestName < name.length then .error .nameTooLong
      else follow root (place ++ [name]) names := by
  obtain ⟨inner, found⟩ := Folder.at?_eq_folder.mp folder
  have stays : (name.isEmpty || name == here) = false := by simp [named.nonempty, named.forward.1]
  simp only [follow, found, stays, named.forward.2, if_false, Bool.false_eq_true]

/-- Why a path cannot be followed, whatever the tree is. -/
def limits (place : List Bytes) : Except FileCause (List Bytes) :=
  if (ofNames true place).any (· == nul) then .error .invalidArgument
  else if longestPath < (ofNames true place).length then .error .nameTooLong
  else if place.any (longestName < ·.length) then .error .nameTooLong
  else .ok place

theorem limits_ok {q : List Bytes} (h : limits place = .ok q) : q = place := by
  rw [limits] at h
  split_ifs at h
  exact (Except.ok.inj h).symm

theorem follow_eq {names : List Bytes} (h : IsPlace names)
    (folders : ∀ front n back, names = front ++ n :: back → root.at? (place ++ front) = some none) :
    follow root place names =
      if names.any (longestName < ·.length) then .error .nameTooLong else .ok (place ++ names) := by
  induction names generalizing place with
  | nil => simp [follow]
  | cons name names ih =>
    have here := folders [] name names rfl
    rw [List.append_nil] at here
    have later := ih (fun n mem => h n (by simp [mem]))
      fun front n back split => (show root.at? (place ++ [name] ++ front) = some none by
        rw [List.append_assoc]
        exact folders (name :: front) n back (by rw [split]; rfl))
    rw [follow_name (h name (by simp)) names here, List.any_cons]
    by_cases long : longestName < name.length
    · simp only [long, if_true, decide_true, Bool.true_or]
    · simp only [long, if_false, decide_false, Bool.false_or, later, List.append_assoc,
        List.singleton_append]

theorem follow_ok {names q : List Bytes} (h : IsPlace names) (found : follow root place names = .ok q) :
    q = place ++ names := by
  induction names generalizing place with
  | nil =>
    rw [List.append_nil]
    exact (Except.ok.inj found).symm
  | cons name names ih =>
    cases kind : root.at? place with
    | none =>
      rw [follow, Folder.at?_eq_none.mp kind] at found
      cases found
    | some kind' =>
      cases kind' with
      | some content =>
        rw [follow, Folder.at?_eq_file.mp kind] at found
        cases found
      | none =>
        rw [follow_name (h name (by simp)) names kind] at found
        split at found
        · cases found
        · rw [ih (fun n mem => h n (by simp [mem])) found, List.append_assoc]
          rfl

theorem locate_ok {q : List Bytes} (h : IsPlace place)
    (found : t.locate (ofNames true place) = .ok q) : q = place := by
  have rooted : isAbsolute (ofNames true place) = true := rfl
  rw [locate, rooted, if_pos rfl, follow_ofNames h] at found
  split_ifs at found
  exact follow_ok h found

theorem locate_eq (h : IsPlace place)
    (folders : ∀ front n back, place = front ++ n :: back → t.root.at? front = some none) :
    t.locate (ofNames true place) = limits place := by
  have rooted : isAbsolute (ofNames true place) = true := rfl
  have nonempty : (ofNames true place).isEmpty = false := rfl
  rw [locate, limits, nonempty, rooted, if_pos rfl, follow_ofNames h, follow_eq h folders]
  simp only [Bool.false_eq_true, if_false, List.nil_append]

/-- The place of a path in a folder. -/
theorem locate_concat (h : IsPlace (place ++ [name])) (parent : t.root.at? place = some none) :
    t.locate (ofNames true (place ++ [name])) = limits (place ++ [name]) := by
  refine locate_eq h fun front n back split => ?_
  rcases List.append_eq_append_iff.mp split with ⟨more, rfl, rest⟩ | ⟨more, rfl, rest⟩
  · cases more with
    | nil => rwa [List.append_nil]
    | cons m more => simp at rest
  · cases more with
    | nil => rwa [List.append_nil] at parent
    | cons m more => exact Folder.at?_front (by rw [parent]; exact Option.some_ne_none _)

theorem entry_ok {e : Entry} (h : IsPlace place) :
    t.entry (ofNames true place) = .ok e ↔ t.root.get? place = some e ∧ limits place = .ok place := by
  have located (found : t.root.get? place = some e) : t.locate (ofNames true place) = limits place := by
    refine locate_eq h fun front n back split => ?_
    have inside : t.root.at? (front ++ n :: back) ≠ none := by
      rw [ne_eq, Folder.at?_eq_none, ← split, found]
      exact Option.some_ne_none e
    exact Folder.at?_front inside
  constructor
  · intro answer
    rw [entry] at answer
    obtain ⟨q, place', taken⟩ := exists_of_bind_ok answer
    obtain rfl := locate_ok h place'
    cases found : t.root.get? q with
    | none => rw [found] at taken; cases taken
    | some e' =>
      rw [found] at taken
      cases taken
      exact ⟨rfl, (located found).symm.trans place'⟩
  · rintro ⟨found, fits⟩
    rw [entry, located found, fits]
    simp only [found, bind, Except.bind]
    rfl

section Operations
variable {content : Bytes} (h : IsPlace place) (folder : t.root.at? place = some none)
  (named : IsName name)
include h folder named

theorem write_ok (fits : limits (place ++ [name]) = .ok (place ++ [name])) :
    t.write (ofNames true (place ++ [name])) content =
      .ok { t with root := t.root.put (place ++ [name]) (.file content) } := by
  rw [write, locate_concat (IsPlace.concat.mpr ⟨h, named⟩) folder, fits]
  rfl

theorem create_eq :
    t.create (ofNames true (place ++ [name])) = (limits (place ++ [name])).bind fun q =>
      if t.root.at? q = none then .ok { t with root := t.root.put q (.file []) }
      else .error .alreadyExists := by
  rw [create, locate_concat (IsPlace.concat.mpr ⟨h, named⟩) folder]
  cases limits (place ++ [name]) with
  | error cause => rfl
  | ok q =>
    simp only [bind, Except.bind, Folder.at?_eq_none]
    cases t.root.get? q <;> rfl

theorem remove_ok (fits : limits (place ++ [name]) = .ok (place ++ [name]))
    (present : t.root.at? (place ++ [name]) ≠ none) :
    t.remove (ofNames true (place ++ [name])) = .ok { t with root := t.root.erase (place ++ [name]) } := by
  obtain ⟨e, found⟩ := Option.ne_none_iff_exists'.mp (mt Folder.at?_eq_none.mpr present)
  rw [remove, locate_concat (IsPlace.concat.mpr ⟨h, named⟩) folder, fits]
  simp only [bind, Except.bind, found]
  rfl

theorem remove_absent (fits : limits (place ++ [name]) = .ok (place ++ [name]))
    (absent : t.root.at? (place ++ [name]) = none) :
    t.remove (ofNames true (place ++ [name])) = .error .noEntry := by
  rw [remove, locate_concat (IsPlace.concat.mpr ⟨h, named⟩) folder, fits]
  simp only [bind, Except.bind, Folder.at?_eq_none.mp absent]
  rfl

variable {goal : Bytes} (target : IsName goal)
  (fits : limits (place ++ [name]) = .ok (place ++ [name]))
  (present : t.root.at? (place ++ [name]) = some (some content))
include target fits present

theorem rename_eq :
    t.rename (ofNames true (place ++ [name])) (ofNames true (place ++ [goal])) =
      (limits (place ++ [goal])).bind fun q =>
        if t.root.at? q = some none then .error .alreadyExists
        else .ok { t with root := (t.root.erase (place ++ [name])).put q (.file content) } := by
  have moved : t.entry (ofNames true (place ++ [name])) = .ok (.file content) :=
    (entry_ok (IsPlace.concat.mpr ⟨h, named⟩)).mpr ⟨Folder.at?_eq_file.mp present, fits⟩
  rw [rename, moved, locate_concat (IsPlace.concat.mpr ⟨h, named⟩) folder, fits,
    locate_concat (IsPlace.concat.mpr ⟨h, target⟩) folder]
  cases limits (place ++ [goal]) with
  | error cause => rfl
  | ok q =>
    simp only [bind, Except.bind]
    cases found : t.root.get? q with
    | none => rw [if_neg (by simp [Folder.at?, found])]; rfl
    | some e =>
      cases e with
      | file old => rw [if_neg (by simp [Folder.at?_eq_folder, found])]; rfl
      | folder inner => rw [if_pos (Folder.at?_eq_folder.mpr ⟨inner, found⟩)]; rfl

theorem rename_error (blocked : limits (place ++ [goal]) ≠ .ok (place ++ [goal]) ∨
      t.root.at? (place ++ [goal]) = some none) :
    ∃ cause, t.rename (ofNames true (place ++ [name])) (ofNames true (place ++ [goal])) =
      .error cause := by
  rw [rename_eq h folder named target fits present]
  cases reached : limits (place ++ [goal]) with
  | error cause => exact ⟨cause, rfl⟩
  | ok q =>
    obtain rfl := limits_ok reached
    exact ⟨_, if_pos (blocked.resolve_left (not_not_intro reached))⟩

end Operations

end FileTree
end DomTemplate
