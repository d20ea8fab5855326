import DomTemplate.Proofs.Following
import DomTemplate.Proofs.GeneratedFiles
import DomTemplate.Proofs.Outline

/-! Replacing a file at any path, on a system that may refuse any operation. Directories are made as far
as they are missing. Then the file holds its new content and nothing else has changed, or no file has
changed at all, but for a temporary one that the system refuses to remove. -/

namespace DomTemplate
open Ascii DomTemplate.Path FileTree

namespace Folder
variable {d d' d'' : Folder} {place q : List Bytes} {name : Bytes}

/-- The content of the regular file at a place. -/
def file? (d : Folder) (place : List Bytes) : Option Bytes := (d.at? place).join

/-- A tree to which empty folders were added. -/
def Grows (d d' : Folder) : Prop := ∀ q, d'.at? q = d.at? q ∨ d.at? q = none ∧ d'.at? q = some none

theorem Grows.refl (d : Folder) : d.Grows d := fun _ => .inl rfl

theorem Grows.trans (first : d.Grows d') (second : d'.Grows d'') : d.Grows d'' := by
  intro q
  rcases first q with same | ⟨absent, made⟩
  · rw [← same]
    exact second q
  · rcases second q with same' | ⟨absent', -⟩
    · exact .inr ⟨absent, same'.trans made⟩
    · rw [made] at absent'
      cases absent'

theorem Grows.file? (h : d.Grows d') (q : List Bytes) : d'.file? q = d.file? q := by
  rcases h q with same | ⟨absent, made⟩
  · rw [Folder.file?, same, Folder.file?]
  · rw [Folder.file?, made, Folder.file?, absent]
    rfl

theorem grows_put (parent : d.at? place = some none) (absent : d.at? (place ++ [name]) = none) :
    d.Grows (d.put (place ++ [name]) (.folder .empty)) := by
  intro q
  by_cases here : q = place ++ [name]
  · subst here
    exact .inr ⟨absent, at?_eq_folder.mpr ⟨_, get?_put parent⟩⟩
  · exact .inl (at?_put_leaf (fun _ _ => by rw [Entry.below, get?]; rfl) (by rw [absent]; simp) here)

/-- A file that is put where there was no folder neither makes nor hides one. -/
theorem at?_put_folder {content : Bytes} (parent : d.at? place = some none)
    (free : d.at? (place ++ [name]) ≠ some none) :
    (d.put (place ++ [name]) (.file content)).at? q = some none ↔ d.at? q = some none := by
  by_cases here : q = place ++ [name]
  · subst here
    have made : (d.put (place ++ [name]) (.file content)).at? (place ++ [name]) = some (some content) :=
      at?_eq_file.mpr (get?_put parent)
    simp [made, free]
  · rw [at?_put_of_ne free here]

theorem file?_put {content : Bytes} (parent : d.at? place = some none)
    (free : d.at? (place ++ [name]) ≠ some none) :
    (d.put (place ++ [name]) (.file content)).file? q =
      if q = place ++ [name] then some content else d.file? q := by
  split_ifs with here
  · rw [here, file?, at?_eq_file.mpr (get?_put parent)]
    rfl
  · rw [file?, at?_put_of_ne free here, file?]

end Folder

namespace FileTree
variable {t t' : FileTree} {path : Bytes}

theorem of_makeDirectory (h : t.makeDirectory path = .ok t') :
    ∃ d, t.root.Grows d ∧ t' = { t with root := d } := by
  rw [makeDirectory] at h
  obtain ⟨place, found, h⟩ := exists_of_bind_ok h
  split at h
  · cases h
  · rename_i there
    cases h
    have absent := Folder.at?_eq_none.mpr there
    obtain ⟨front, folder, -, rfl⟩ := locate_entry found (by rw [absent]; simp)
    exact ⟨_, Folder.grows_put folder absent, rfl⟩

theorem of_create (h : t.create path = .ok t') :
    ∃ place, t.locate path = .ok place ∧ t.root.at? place = none ∧
      t' = { t with root := t.root.put place (.file []) } := by
  obtain ⟨place, found, h⟩ := exists_of_bind_ok h
  split at h
  · cases h
  · rename_i there
    cases h
    exact ⟨place, found, Folder.at?_eq_none.mpr there, rfl⟩

theorem of_write {content : Bytes} (h : t.write path content = .ok t') :
    ∃ place, t.locate path = .ok place ∧ t' = { t with root := t.root.put place (.file content) } := by
  obtain ⟨place, found, h⟩ := exists_of_bind_ok h
  exact ⟨place, found, (Except.ok.inj h).symm⟩

theorem entry_eq_ok {e : Entry} :
    t.entry path = .ok e ↔ ∃ q, t.locate path = .ok q ∧ t.root.get? q = some e := by
  rw [entry]
  cases t.locate path with
  | error cause => simp [bind, Except.bind]
  | ok q =>
    cases there : t.root.get? q with
    | none => simp [bind, Except.bind, there, throw, throwThe, MonadExceptOf.throw]
    | some e' => simp [bind, Except.bind, there, pure, Except.pure]

theorem of_rename {old new : Bytes} (h : t.rename old new = .ok t') :
    ∃ start goal moved, t.locate old = .ok start ∧ t.root.get? start = some moved ∧
      t.locate new = .ok goal ∧ t.root.at? goal ≠ some none ∧
      t' = { t with root := (t.root.erase start).put goal moved } := by
  obtain ⟨moved, taken, h⟩ := exists_of_bind_ok h
  obtain ⟨start, found, there⟩ := entry_eq_ok.mp taken
  obtain ⟨start', found', h⟩ := exists_of_bind_ok h
  cases found.symm.trans found'
  obtain ⟨goal, reached, h⟩ := exists_of_bind_ok h
  split at h
  · cases h
  · rename_i free
    refine ⟨start, goal, moved, found, there, reached, fun folder => ?_, (Except.ok.inj h).symm⟩
    obtain ⟨inner, same⟩ := Folder.at?_eq_folder.mp folder
    exact free inner same

theorem of_remove (h : t.remove path = .ok t') :
    ∃ place, t.locate path = .ok place ∧ t.root.at? place ≠ none ∧
      t' = { t with root := t.root.erase place } := by
  obtain ⟨place, found, h⟩ := exists_of_bind_ok h
  split at h
  · rename_i there
    cases h
    exact ⟨place, found, by simp [Folder.at?, there], rfl⟩
  · cases h

/-- A new file changes nothing for the ways to other places. -/
theorem locate_put {place : List Bytes} {name content : Bytes} (parent : t.root.at? place = some none)
    (free : t.root.at? (place ++ [name]) ≠ some none) {q : List Bytes} :
    locate { t with root := t.root.put (place ++ [name]) (.file content) } path = .ok q ↔
      t.locate path = .ok q := by
  constructor
  · exact locate_mono (t := { t with root := t.root.put (place ++ [name]) (.file content) })
      fun _ => (Folder.at?_put_folder parent free).mp
  · exact locate_mono fun _ => (Folder.at?_put_folder parent free).mpr

end FileTree

namespace World
variable {w : World}

theorem change_cases (w : World) (op : FileOp) (path : Bytes) (paths : List Bytes)
    (result : FileTree → Except FileCause FileTree) :
    (∃ files, w.refuses op path = none ∧ result w.files = .ok files ∧
      w.change op path paths result = (.ok (), { w with files })) ∨
    ∃ cause, w.change op path paths result = (.error ⟨op, paths, cause⟩, w) := by
  rw [change]
  cases w.refuses op path with
  | some cause => exact .inr ⟨cause, rfl⟩
  | none =>
    cases result w.files with
    | ok files => exact .inl ⟨files, rfl, rfl, rfl⟩
    | error cause => exact .inr ⟨cause, rfl⟩

theorem create_error {path : Bytes} {e : FileError} (h : ((Host.create path : InMemory _) w).1 = .error e) :
    ((Host.create path : InMemory _) w).2 = w := by
  rw [create_apply] at h ⊢
  rcases w.change_cases .openFile path [path] fun t => t.create path with
    ⟨files, -, -, changed⟩ | ⟨cause, changed⟩
  · rw [changed] at h
    cases h
  · rw [changed]

theorem change_allowed {op : FileOp} {path : Bytes} {paths : List Bytes} {files : FileTree}
    {result : FileTree → Except FileCause FileTree} (able : result w.files = .ok files) :
    w.change op path paths result = (w.refuses op path).elim (.ok (), { w with files })
      fun cause => (.error ⟨op, paths, cause⟩, w) := by
  rw [change, able]
  cases w.refuses op path <;> rfl

theorem change_kept (w : World) (op : FileOp) (path : Bytes) (paths : List Bytes) :
    w.change op path paths .ok =
      ((w.refuses op path).elim (.ok ()) fun cause => .error ⟨op, paths, cause⟩, w) := by
  rw [change]
  cases w.refuses op path <;> rfl

/-- What a step does to the tree, if it adds no more than empty folders. -/
def Extends (w w' : World) : Prop := ∃ d, w.files.root.Grows d ∧ w' = w.withRoot d

theorem Extends.refl (w : World) : w.Extends w := ⟨_, .refl _, rfl⟩

theorem Extends.trans {w' w'' : World} (first : w.Extends w') (second : w'.Extends w'') : w.Extends w'' := by
  obtain ⟨d, grown, rfl⟩ := first
  obtain ⟨d', grown', rfl⟩ := second
  exact ⟨d', grown.trans grown', rfl⟩

theorem makeLastDirectory_extends (path : Bytes) (w : World) :
    w.Extends ((makeLastDirectory path : InMemory _) w).2 := by
  rw [makeLastDirectory, bind_apply, makeDirectory_apply]
  rcases w.change_cases .mkdir path [path] fun t => t.makeDirectory path with
    ⟨files, -, added, changed⟩ | ⟨cause, changed⟩
  · rw [changed]
    obtain ⟨d, grown, rfl⟩ := of_makeDirectory added
    exact ⟨d, grown, rfl⟩
  · rw [changed]
    dsimp only
    rw [bind_apply, isDirectory_apply]
    rcases w.look .stat path fun t => t.isDirectory path with e | _ | _ <;> exact .refl w

theorem makeDirectories_extends (path : Bytes) (w : World) :
    w.Extends ((makeDirectories path : InMemory _) w).2 := by
  rw [makeDirectories, bind_apply, isDirectory_apply]
  rcases w.look .stat path fun t => t.isDirectory path with e | _ | _
  · dsimp only
    split_ifs with top
    · exact makeLastDirectory_extends path w
    · have above := makeDirectories_extends (parentPath path) w
      rw [bind_apply]
      cases ((makeDirectories (parentPath path) : InMemory _) w).1 with
      | error e => exact above
      | ok u => exact above.trans (makeLastDirectory_extends path _)
  · exact .refl w
  · exact .refl w
termination_by path.length
decreasing_by exact length_parentPath_lt top

theorem inDirectory_append (d name n : Bytes) : inDirectory d name ++ n = inDirectory d (name ++ n) := by
  rw [inDirectory, inDirectory]
  split_ifs <;> simp

theorem createNumbered_cases (stem : Bytes) (ns : List Bytes) (w : World) :
    (∃ e, (createNumbered stem ns : InMemory _) w = (.error e, w)) ∨
    ∃ n ∈ ns, ∃ place, w.files.locate (stem ++ n) = .ok place ∧ w.files.root.at? place = none ∧
      (createNumbered stem ns : InMemory _) w =
        (.ok (stem ++ n), w.withRoot (w.files.root.put place (.file []))) := by
  induction ns with
  | nil => exact .inl ⟨_, rfl⟩
  | cons n ns ih =>
    rw [createNumbered, bind_apply, create_apply]
    rcases w.change_cases .openFile (stem ++ n) [stem ++ n] fun t => t.create (stem ++ n) with
      ⟨files, -, added, changed⟩ | ⟨cause, changed⟩
    · rw [changed]
      obtain ⟨place, found, absent, rfl⟩ := of_create added
      exact .inr ⟨n, List.mem_cons_self, place, found, absent, rfl⟩
    · rw [changed]
      dsimp only
      split_ifs with used
      · refine ih.imp_right ?_
        rintro ⟨n', mem, more⟩
        exact ⟨n', List.mem_cons_of_mem _ mem, more⟩
      · exact .inl ⟨_, rfl⟩

/-- The numbers of temporary files are written in digits. -/
def Numbered (w : World) : Prop := ∀ n ∈ w.temporaryNumbers, n.all isDigit = true

theorem Numbered.whole (h : w.Numbered) : ∀ n ∈ w.temporaryNumbers, slash ∉ n := by
  intro n mem inside
  have digit := List.all_eq_true.mp (h n mem) slash inside
  exact absurd digit (by decide)

/-- The paths at which temporary files for the file at `path` may stand. -/
def temporaryPaths (w : World) (path : Bytes) : List Bytes :=
  w.temporaryNumbers.map fun n => inDirectory (dir path) (temporaryStem (base path) ++ n)

theorem createTemporary_cases (numbered : w.Numbered) (path : Bytes) :
    (∃ e, (createTemporary (dir path) (base path) : InMemory _) w = (.error e, w)) ∨
    ∃ name, IsName name ∧ (base path).length < name.length ∧
      inDirectory (dir path) name ∈ w.temporaryPaths path ∧
      w.files.locate (inDirectory (dir path) name) = .ok (aim w.files.current (dir path) ++ [name]) ∧
      w.files.root.at? (aim w.files.current (dir path) ++ [name]) = none ∧
      (createTemporary (dir path) (base path) : InMemory _) w =
        (.ok (inDirectory (dir path) name),
          w.withRoot (w.files.root.put (aim w.files.current (dir path) ++ [name]) (.file []))) := by
  rw [createTemporary]
  split_ifs with slashed
  · exact .inl ⟨_, rfl⟩
  · rw [bind_apply, temporaryNumbers_apply]
    refine (createNumbered_cases (inDirectory (dir path) (temporaryStem (base path)))
      w.temporaryNumbers w).imp_right ?_
    rintro ⟨n, mem, place, found, absent, made⟩
    have named : IsName (temporaryStem (base path) ++ n) :=
      isName_temporary ⟨base_ne_nil path, by simpa using slashed⟩ (numbered.whole n mem)
    rw [inDirectory_append] at found made
    obtain rfl := (locate_aim found).trans (aim_inDirectory _ _ named)
    have longer : (base path).length < (temporaryStem (base path) ++ n).length := by
      simp only [temporaryStem, List.length_append, List.length_cons]
      omega
    exact ⟨_, named, longer, List.mem_map_of_mem mem, found, absent, made⟩

/-- The system with a file at a place. -/
def withFile (w : World) (place : List Bytes) (content : Bytes) : World :=
  w.withRoot (w.files.root.put place (.file content))

section Moving
variable {place : List Bytes} {name temporary : Bytes} (path content : Bytes)
  (found : w.files.locate temporary = .ok (place ++ [name]))
  (parent : w.files.root.at? place = some none) (absent : w.files.root.at? (place ++ [name]) = none)
include parent absent

theorem locate_withFile {p : Bytes} {q : List Bytes} {text : Bytes} :
    (w.withFile (place ++ [name]) text).files.locate p = .ok q ↔ w.files.locate p = .ok q :=
  locate_put parent (by rw [absent]; simp)

include found

theorem rename_cases :
    (∃ e, (Host.rename temporary path : InMemory _) (w.withFile (place ++ [name]) content) =
      (.error e, w.withFile (place ++ [name]) content)) ∨
    ∃ front, w.files.locate path = .ok (front ++ [base path]) ∧ w.files.root.at? front = some none ∧
      w.files.root.at? (front ++ [base path]) ≠ some none ∧
      (Host.rename temporary path : InMemory _) (w.withFile (place ++ [name]) content) =
        (.ok (), w.withFile (front ++ [base path]) content) := by
  have new : w.files.root.at? (place ++ [name]) ≠ some none := by rw [absent]; simp
  rcases (w.withFile (place ++ [name]) content).change_cases .rename temporary [temporary, path]
    fun t => t.rename temporary path with ⟨files, -, renamed, changed⟩ | ⟨cause, changed⟩
  · obtain ⟨start, goal, taken, started, there, reached, free, rfl⟩ := of_rename renamed
    rw [locate_withFile parent absent] at started reached
    rw [found] at started
    cases started
    obtain rfl : taken = .file content := Option.some.inj (there.symm.trans (Folder.get?_put parent))
    have free : w.files.root.at? goal ≠ some none := mt (Folder.at?_put_folder parent new).mpr free
    obtain ⟨front, above, -, rfl⟩ := locate_entry reached free
    refine .inr ⟨front, reached, above, free, changed.trans ?_⟩
    simp only [withFile, withRoot, Folder.erase_put absent]
  · exact .inl ⟨_, changed⟩

theorem write_cases :
    ∃ r text, (Host.write temporary content : InMemory _) (w.withFile (place ++ [name]) []) =
      (r, w.withFile (place ++ [name]) text) ∧ (r = .ok () → text = content) := by
  rcases (w.withFile (place ++ [name]) []).change_cases .write temporary [temporary]
    fun t => t.write temporary content with ⟨files, -, filled, changed⟩ | ⟨cause, changed⟩
  · obtain ⟨q, there, rfl⟩ := of_write filled
    rw [locate_withFile parent absent, found] at there
    cases there
    refine ⟨.ok (), content, changed.trans ?_, fun _ => rfl⟩
    simp only [withFile, withRoot, Folder.put_put]
  · exact ⟨_, _, changed, by simp⟩

theorem fillAndMove_cases :
    (∃ e text, (fillAndMove temporary path content : InMemory _) (w.withFile (place ++ [name]) []) =
      (.error e, w.withFile (place ++ [name]) text)) ∨
    ∃ front, w.files.locate path = .ok (front ++ [base path]) ∧ w.files.root.at? front = some none ∧
      w.files.root.at? (front ++ [base path]) ≠ some none ∧
      (fillAndMove temporary path content : InMemory _) (w.withFile (place ++ [name]) []) =
        (.ok (), w.withFile (front ++ [base path]) content) := by
  obtain ⟨filled, text, wrote, full⟩ := write_cases content found parent absent
  obtain ⟨published, publish⟩ : ∃ r, (Host.publish temporary : InMemory _) (w.withFile (place ++ [name]) text) =
    (r, w.withFile (place ++ [name]) text) := ⟨_, change_kept _ _ _ _⟩
  obtain ⟨closed, close⟩ : ∃ r, (Host.close temporary : InMemory _) (w.withFile (place ++ [name]) text) =
    (r, w.withFile (place ++ [name]) text) := ⟨_, change_kept _ _ _ _⟩
  rw [fillAndMove, bind_apply, wrote]
  cases filled with
  | error e => exact .inl ⟨e, text, rfl⟩
  | ok u =>
    obtain rfl := full rfl
    dsimp only
    rw [bind_apply, publish]
    cases published with
    | error e => exact .inl ⟨e, text, rfl⟩
    | ok u =>
      dsimp only
      rw [bind_apply, close]
      cases closed with
      | error e => exact .inl ⟨e, text, rfl⟩
      | ok u =>
        refine (rename_cases path text found parent absent).imp_left ?_
        rintro ⟨e, failed⟩
        exact ⟨e, text, failed⟩

theorem remove_cases (text : Bytes) :
    ∃ r, (Host.remove temporary : InMemory _) (w.withFile (place ++ [name]) text) =
      (r, if w.refuses .remove temporary = none then w else w.withFile (place ++ [name]) text) := by
  have there : (w.withFile (place ++ [name]) text).files.root.at? (place ++ [name]) = some (some text) :=
    Folder.at?_eq_file.mpr (Folder.get?_put parent)
  have gone : (w.withFile (place ++ [name]) text).files.remove temporary = .ok w.files := by
    rw [remove, (locate_withFile parent absent).mpr found]
    simp only [bind, Except.bind, Folder.at?_eq_file.mp there]
    exact congrArg (fun d => Except.ok (FileTree.mk d w.files.current)) (Folder.erase_put absent _)
  have removed : (Host.remove temporary : InMemory _) (w.withFile (place ++ [name]) text) =
    (w.withFile (place ++ [name]) text).change .remove temporary [temporary]
      fun t => t.remove temporary := rfl
  have refused : (w.withFile (place ++ [name]) text).refuses = w.refuses := rfl
  rw [removed, change, refused]
  cases w.refuses .remove temporary with
  | some cause => exact ⟨_, rfl⟩
  | none =>
    simp only [gone, if_true]
    exact ⟨_, rfl⟩

omit parent in
theorem remove_other {q : List Bytes} (free : w.files.root.at? q ≠ some none) (other : q ≠ place ++ [name]) :
    ∃ r, (Host.remove temporary : InMemory _) (w.withFile q content) = (r, w.withFile q content) := by
  rcases (w.withFile q content).change_cases .remove temporary [temporary]
    fun t => t.remove temporary with ⟨files, -, removed, changed⟩ | ⟨cause, changed⟩
  · obtain ⟨q', located, there, rfl⟩ := of_remove removed
    obtain rfl : q' = place ++ [name] := (locate_aim located).trans (locate_aim found).symm
    exact absurd ((Folder.at?_put_of_ne free other.symm).trans absent) there
  · exact ⟨_, changed⟩

end Moving

/-- The outcome of replacing the file at `path`, once its directory is there. -/
inductive Replaces (w : World) (path content : Bytes) : Except FileError Unit → World → Prop
  | done {place : List Bytes} (found : w.files.locate path = .ok (place ++ [base path]))
      (parent : w.files.root.at? place = some none)
      (free : w.files.root.at? (place ++ [base path]) ≠ some none) :
      w.Replaces path content (.ok ()) (w.withFile (place ++ [base path]) content)
  | failed (e : FileError) : w.Replaces path content (.error e) w
  /-- The temporary file cannot be removed. -/
  | left (e : FileError) {place : List Bytes} {name text temporary : Bytes}
      (next : place = aim w.files.current (dir path)) (longer : (base path).length < name.length)
      (listed : temporary ∈ w.temporaryPaths path) (parent : w.files.root.at? place = some none)
      (absent : w.files.root.at? (place ++ [name]) = none) (stuck : w.refuses .remove temporary ≠ none) :
      w.Replaces path content (.error e) (w.withFile (place ++ [name]) text)

theorem replaceFile_replaces (numbered : w.Numbered) (path content : Bytes) :
    ((makeDirectories (dir path) : InMemory _) w).2.Replaces path content
      ((replaceFile path content : InMemory _) w).1 ((replaceFile path content : InMemory _) w).2 := by
  obtain ⟨d, -, made⟩ := makeDirectories_extends (dir path) w
  rw [replaceFile, bind_apply]
  rw [made]
  cases ((makeDirectories (dir path) : InMemory _) w).1 with
  | error e => exact .failed e
  | ok u =>
    dsimp only
    rw [bind_apply]
    rcases createTemporary_cases (w := w.withRoot d) numbered path with
      ⟨e, failed⟩ | ⟨name, named, longer, listed, found, absent, created⟩
    · rw [failed]
      exact .failed e
    · rw [created]
      obtain ⟨place, parent, -, same⟩ := locate_entry found (by rw [absent]; simp)
      obtain ⟨rfl, -⟩ := List.append_inj' same rfl
      dsimp only
      rw [bind_apply]
      rcases fillAndMove_cases path content found parent absent with
        ⟨e, text, failed⟩ | ⟨front, reached, above, free, moved⟩
      · obtain ⟨r, removed⟩ := remove_cases found parent absent text
        rw [← withFile, failed]
        dsimp only
        rw [bind_apply, removed]
        split_ifs with able
        · exact .failed e
        · exact .left e rfl longer listed parent absent able
      · have other : front ++ [base path] ≠ aim (w.withRoot d).files.current (dir path) ++ [name] := by
          intro same
          obtain ⟨-, last⟩ := List.append_inj' same rfl
          rw [List.singleton_inj.mp last] at longer
          exact absurd longer (lt_irrefl _)
        obtain ⟨r, removed⟩ := remove_other content found absent free other
        rw [← withFile, moved]
        dsimp only
        rw [bind_apply, removed]
        exact .done reached above free

/-- The content of the regular file at a place. -/
def file? (w : World) (q : List Bytes) : Option Bytes := w.files.root.file? q

theorem look_eq_ok {α : Type} {op : FileOp} {path : Bytes} {result : FileTree → Except FileCause α} {a : α} :
    w.look op path result = .ok a ↔ w.refuses op path = none ∧ result w.files = .ok a := by
  rw [look]
  cases w.refuses op path with
  | some cause => simp
  | none => cases result w.files <;> simp

theorem readFile_eq_ok {path content : Bytes} : w.readFile path = .ok content ↔
    w.refuses .openFile path = none ∧ w.refuses .read path = none ∧
      w.files.entry path = .ok (.file content) := by
  rw [readFile]
  cases opened : w.look .openFile path fun t => t.entry path with
  | error e =>
    simp only [bind, Except.bind, reduceCtorEq, false_iff]
    rintro ⟨free, -, found⟩
    have read : (w.look .openFile path fun t => t.entry path) = .ok (.file content) :=
      look_eq_ok.mpr ⟨free, found⟩
    rw [opened] at read
    cases read
  | ok e =>
    obtain ⟨free, found⟩ := look_eq_ok.mp opened
    cases e <;> simp [bind, Except.bind, look_eq_ok, free, found]

theorem readFile_place {place : List Bytes} {content : Bytes} (placed : IsPlace place) :
    w.readFile (ofNames true place) = .ok content ↔
      w.refuses .openFile (ofNames true place) = none ∧ w.refuses .read (ofNames true place) = none ∧
        w.files.root.at? place = some (some content) ∧ limits place = .ok place := by
  rw [readFile_eq_ok, entry_ok placed, Folder.at?_eq_file]

theorem readFile_file? {path content : Bytes} (h : w.readFile path = .ok content) :
    w.file? (aim w.files.current path) = some content := by
  obtain ⟨q, found, there⟩ := entry_eq_ok.mp (readFile_eq_ok.mp h).2.2
  rw [← locate_aim found, file?, Folder.file?, Folder.at?_eq_file.mpr there]
  rfl

theorem Replaces.file?_done {path content : Bytes} {w' : World} (h : w.Replaces path content (.ok ()) w') :
    ∃ d, w' = w.withRoot d ∧
      ∀ q, d.file? q = if q = aim w.files.current path then some content else w.file? q := by
  cases h with
  | done found parent free =>
    refine ⟨_, rfl, fun q => ?_⟩
    rw [Folder.file?_put parent free, locate_aim found, file?]

theorem Replaces.file?_failed {path content : Bytes} {e : FileError} {w' : World}
    (h : w.Replaces path content (.error e) w') :
    ∃ d, w' = w.withRoot d ∧ d.file? (aim w.files.current path) = w.file? (aim w.files.current path) ∧
      ((∀ p ∈ w.temporaryPaths path, w.refuses .remove p = none) → ∀ q, d.file? q = w.file? q) := by
  cases h with
  | failed => exact ⟨_, rfl, rfl, fun _ _ => rfl⟩
  | left e next longer listed parent absent stuck =>
    refine ⟨_, rfl, ?_, fun able => absurd (able _ listed) stuck⟩
    rw [Folder.file?_put parent (by rw [absent]; simp), if_neg, file?]
    rw [next]
    exact aim_ne_longer _ longer

theorem writeGenerated_done (numbered : w.Numbered) {path content : Bytes} {changed : Bool}
    (h : ((writeGenerated path content : InMemory _) w).1 = .ok changed) :
    ∃ d, ((writeGenerated path content : InMemory _) w).2 = w.withRoot d ∧
      ∀ q, d.file? q = if q = aim w.files.current path then some content else w.file? q := by
  by_cases same : w.readFile path = .ok content
  · rw [writeGenerated_same same]
    refine ⟨_, rfl, fun q => ?_⟩
    split_ifs with here
    · rw [here, ← readFile_file? same, file?]
    · rfl
  · rw [writeGenerated_other same] at h ⊢
    obtain ⟨d, grown, made⟩ := makeDirectories_extends (dir path) w
    have replaces := replaceFile_replaces numbered path content
    obtain ⟨u, replaced, -⟩ := exists_of_map_ok h
    rw [made, replaced] at replaces
    obtain ⟨d', root, files⟩ := replaces.file?_done
    exact ⟨d', root, fun q => (files q).trans (by rw [file?, file?, ← grown.file? q]; rfl)⟩

theorem writeGenerated_failed (numbered : w.Numbered) {path content : Bytes} {e : FileError}
    (h : ((writeGenerated path content : InMemory _) w).1 = .error e) :
    ∃ d, ((writeGenerated path content : InMemory _) w).2 = w.withRoot d ∧
      d.file? (aim w.files.current path) = w.file? (aim w.files.current path) ∧
      ((∀ p ∈ w.temporaryPaths path, w.refuses .remove p = none) → ∀ q, d.file? q = w.file? q) := by
  have other : w.readFile path ≠ .ok content := by
    intro same
    rw [writeGenerated_same same] at h
    cases h
  rw [writeGenerated_other other] at h ⊢
  obtain ⟨d, grown, made⟩ := makeDirectories_extends (dir path) w
  have replaces := replaceFile_replaces numbered path content
  cases replaced : ((replaceFile path content : InMemory _) w).1 with
  | ok u =>
    rw [replaced] at h
    cases h
  | error e =>
    rw [made, replaced] at replaces
    obtain ⟨d', root, here, elsewhere⟩ := replaces.file?_failed
    have before (q : List Bytes) : (w.withRoot d).file? q = w.file? q := grown.file? q
    exact ⟨d', root, here.trans (before _), fun able q => (elsewhere able q).trans (before q)⟩

theorem Replaces.entry_done {path content : Bytes} {w' : World} (h : w.Replaces path content (.ok ()) w') :
    w'.files.entry path = .ok (.file content) := by
  cases h with
  | done found parent free =>
    exact entry_eq_ok.mpr ⟨_, (locate_put parent free).mpr found, Folder.get?_put parent⟩

/-- After a run without an error, the path leads to the content. -/
theorem writeGenerated_entry (numbered : w.Numbered) {path content : Bytes} {changed : Bool}
    (h : ((writeGenerated path content : InMemory _) w).1 = .ok changed) :
    ((writeGenerated path content : InMemory _) w).2.files.entry path = .ok (.file content) := by
  by_cases same : w.readFile path = .ok content
  · rw [writeGenerated_same same]
    exact (readFile_eq_ok.mp same).2.2
  · rw [writeGenerated_other same] at h ⊢
    have replaces := replaceFile_replaces numbered path content
    obtain ⟨u, replaced, -⟩ := exists_of_map_ok h
    rw [replaced] at replaces
    exact replaces.entry_done

/-- Only a file that has its content already is left alone. -/
theorem writeGenerated_unchanged {path content : Bytes} :
    ((writeGenerated path content : InMemory _) w).1 = .ok false ↔ w.readFile path = .ok content := by
  constructor
  · intro answer
    by_contra other
    rw [writeGenerated_other other] at answer
    obtain ⟨u, -, changed⟩ := exists_of_map_ok answer
    cases changed
  · intro same
    rw [writeGenerated_same same]

/-- Writing a generated file is all or nothing, whatever the system refuses. -/
theorem writeGenerated_all_or_nothing (numbered : w.Numbered) (path content : Bytes)
    {answer : Except FileError Bool} {w' : World}
    (run : (writeGenerated path content : InMemory _) w = (answer, w')) :
    (∀ e, answer = .error e → (∀ p ∈ w.temporaryPaths path, w.refuses .remove p = none) →
      ∀ q, w'.file? q = w.file? q) ∧
    (answer = .ok true → ∃ goal, w'.files.locate path = .ok goal ∧ w'.file? goal = some content ∧
      ∀ q, q ≠ goal → w'.file? q = w.file? q) ∧
    (answer = .ok false ↔ w.readFile path = .ok content) ∧
    (answer = .ok false → w' = w ∧ (writeGenerated path content : InMemory _) w' = (.ok false, w')) ∧
    ∀ changed, answer = .ok changed →
      ∀ refuses : FileOp → Bytes → Option FileCause, refuses .openFile path = none →
        refuses .read path = none →
        (writeGenerated path content : InMemory _) { w' with refuses } = (.ok false, { w' with refuses }) := by
  obtain rfl : ((writeGenerated path content : InMemory _) w).1 = answer := congrArg Prod.fst run
  obtain rfl : ((writeGenerated path content : InMemory _) w).2 = w' := congrArg Prod.snd run
  refine ⟨fun e failed able => ?_, fun replaced => ?_, writeGenerated_unchanged, fun same => ?_,
    fun changed written refuses opened read => ?_⟩
  · obtain ⟨d, root, -, files⟩ := writeGenerated_failed numbered failed
    rw [root]
    exact files able
  · obtain ⟨d, root, files⟩ := writeGenerated_done numbered replaced
    obtain ⟨goal, found, there⟩ := entry_eq_ok.mp (writeGenerated_entry numbered replaced)
    have aimed := locate_aim found
    rw [root] at aimed
    refine ⟨goal, found, ?_, fun q other => ?_⟩
    · rw [file?, Folder.file?, Folder.at?_eq_file.mpr there]
      rfl
    · rw [root]
      exact (files q).trans (if_neg (aimed ▸ other))
  · have readable := writeGenerated_unchanged.mp same
    have kept := writeGenerated_same readable
    rw [kept]
    exact ⟨rfl, kept⟩
  · refine writeGenerated_same (readFile_eq_ok.mpr ⟨opened, read, ?_⟩)
    exact writeGenerated_entry numbered written

/-- A system with one file that refuses one operation. -/
def oneFile (refused : FileOp) : World where
  files := ⟨.file (utf8 "o") (utf8 "old") .empty, []⟩
  refuses op _ := if op = refused then some (.other (utf8 "permission denied")) else none

theorem writeGenerated_all_or_nothing_one_file :
    (∃ e w', (writeGenerated (utf8 "/d/o") (utf8 "new") : InMemory _) (oneFile .rename) = (.error e, w') ∧
      ∀ q, w'.file? q = (oneFile .rename).file? q) ∧
    ∃ w' goal, (writeGenerated (utf8 "/o") (utf8 "new") : InMemory _) (oneFile .read) = (.ok true, w') ∧
      w'.files.locate (utf8 "/o") = .ok goal ∧ w'.file? goal = some (utf8 "new") ∧
      ∀ q, q ≠ goal → w'.file? q = (oneFile .read).file? q := by
  have numbered (refused : FileOp) : (oneFile refused).Numbered := List.forall_mem_singleton.mpr (by decide)
  have failed : ((writeGenerated (utf8 "/d/o") (utf8 "new") : InMemory _) (oneFile .rename)).1 =
      .error ⟨.rename, [utf8 "/d/.o.1", utf8 "/d/o"], .other (utf8 "permission denied")⟩ := by
    decide +kernel
  have replaced : ((writeGenerated (utf8 "/o") (utf8 "new") : InMemory _) (oneFile .read)).1 = .ok true := by
    decide +kernel
  obtain ⟨unharmed, -⟩ := writeGenerated_all_or_nothing (numbered .rename) (utf8 "/d/o") (utf8 "new") rfl
  obtain ⟨-, moved, -⟩ := writeGenerated_all_or_nothing (numbered .read) (utf8 "/o") (utf8 "new") rfl
  obtain ⟨goal, found, there, elsewhere⟩ := moved replaced
  refine ⟨⟨_, _, Prod.ext failed rfl, unharmed _ failed fun p _ => rfl⟩,
    _, goal, Prod.ext replaced rfl, found, there, elsewhere⟩

section Existing
variable {v : World} {path : Bytes}

/-- Whether the directory at `path` is there. -/
def HasFolder (w : World) (path : Bytes) : Prop :=
  ∃ q, w.files.locate path = .ok q ∧ w.files.root.at? q = some none

theorem HasFolder.isDirectory (h : w.HasFolder path) : w.files.isDirectory path = .ok true := by
  obtain ⟨q, found, folder⟩ := h
  obtain ⟨inner, there⟩ := Folder.at?_eq_folder.mp folder
  rw [FileTree.isDirectory, entry_eq_ok.mpr ⟨q, found, there⟩]
  rfl

theorem HasFolder.makeDirectory (h : w.HasFolder path) :
    w.files.makeDirectory path = .error .alreadyExists := by
  obtain ⟨q, found, folder⟩ := h
  obtain ⟨inner, there⟩ := Folder.at?_eq_folder.mp folder
  have bare : w.files.locate (if (Bytes.dropWhileRight (· == slash) path).isEmpty then path
      else Bytes.dropWhileRight (· == slash) path) = .ok q := by
    split_ifs with empty
    · exact found
    · exact locate_bare found (by simpa using empty)
  rw [FileTree.makeDirectory, bare]
  simp only [bind, Except.bind, there]
  rfl

theorem HasFolder.parent (h : w.HasFolder path) (below : parentPath path ≠ []) :
    w.HasFolder (parentPath path) := by
  obtain ⟨q, found, -⟩ := h
  rw [parentPath, ← split_fst] at below ⊢
  refine locate_parent (locate_bare found ?_) below
  intro empty
  rw [empty] at below
  exact below rfl

theorem HasFolder.run_isDirectory (h : w.HasFolder path) : (Host.isDirectory path : InMemory _) w =
    ((w.refuses .stat path).elim (.ok true) fun cause => .error ⟨.stat, [path], cause⟩, w) := by
  rw [isDirectory_apply, look, h.isDirectory]
  cases w.refuses .stat path <;> rfl

theorem HasFolder.run_makeDirectory (h : w.HasFolder path) : (Host.makeDirectory path : InMemory _) w =
    (.error ⟨.mkdir, [path], (w.refuses .mkdir path).getD .alreadyExists⟩, w) := by
  rw [makeDirectory_apply, change, h.makeDirectory]
  cases w.refuses .mkdir path <;> rfl

/-- What the system answers to making a directory that is there does not depend on the tree. -/
theorem makeLastDirectory_existing (same : v.refuses = w.refuses) (there : v.HasFolder path)
    (there' : w.HasFolder path) : (makeLastDirectory path : InMemory _) v =
      (((makeLastDirectory path : InMemory _) w).1, v) := by
  simp only [makeLastDirectory, bind_apply, there.run_makeDirectory, there'.run_makeDirectory,
    there.run_isDirectory, there'.run_isDirectory, same]
  cases w.refuses .stat path <;> rfl

theorem makeDirectories_existing {v w : World} {path : Bytes} (same : v.refuses = w.refuses)
    (there : v.HasFolder path) (there' : w.HasFolder path) : (makeDirectories path : InMemory _) v =
      (((makeDirectories path : InMemory _) w).1, v) := by
  rw [makeDirectories, bind_apply, bind_apply, there.run_isDirectory, there'.run_isDirectory, same]
  cases w.refuses .stat path with
  | none => rfl
  | some cause =>
    dsimp only [Option.elim_some]
    split_ifs with top
    · exact makeLastDirectory_existing same there there'
    · have above := makeDirectories_existing same (there.parent top) (there'.parent top)
      have unchanged := makeDirectories_existing rfl (there'.parent top) (there'.parent top)
      rw [bind_apply, bind_apply, above, unchanged]
      cases ((makeDirectories (parentPath path) : InMemory _) w).1 with
      | error e => rfl
      | ok u => exact makeLastDirectory_existing same there there'
termination_by path.length
decreasing_by all_goals exact length_parentPath_lt top

theorem hasFolder_place {place : List Bytes} (placed : IsPlace place)
    (folder : w.files.root.at? place = some none) (fits : limits place = .ok place) :
    w.HasFolder (ofNames true place) := by
  refine ⟨place, ?_, folder⟩
  rw [locate_eq placed, fits]
  rintro front n back rfl
  exact Folder.at?_front (by rw [folder]; simp)

end Existing

/-- Temporary files have numbers, and can be removed. -/
structure Tidy (w : World) : Prop where
  numbered : w.Numbered
  removable : ∀ path, w.refuses .remove path = none

/-- A file in a folder is replaced, or nothing has changed. -/
theorem replaceFile_next (tidy : w.Tidy) {place : List Bytes} {base : Bytes} (placed : IsPlace place)
    (named : IsName base) (folder : w.files.root.at? place = some none) (fits : limits place = .ok place)
    (content : Bytes) :
    ((replaceFile (ofNames true (place ++ [base])) content : InMemory _) w =
        (.ok (), w.withFile (place ++ [base]) content) ∧
      w.files.root.at? (place ++ [base]) ≠ some none) ∨
    ∃ e, (replaceFile (ofNames true (place ++ [base])) content : InMemory _) w = (.error e, w) := by
  have there := hasFolder_place placed folder fits
  have replaces := replaceFile_replaces tidy.numbered (ofNames true (place ++ [base])) content
  rw [dir_ofNames named placed, makeDirectories_existing rfl there there] at replaces
  generalize outcome : (replaceFile (ofNames true (place ++ [base])) content : InMemory _) w = r at replaces ⊢
  obtain ⟨answer, w'⟩ := r
  cases replaces with
  | done found parent free =>
    rw [base_ofNames named] at found free ⊢
    rw [locate_ok (IsPlace.concat.mpr ⟨placed, named⟩) found] at free ⊢
    exact .inl ⟨rfl, free⟩
  | failed e => exact .inr ⟨e, rfl⟩
  | left e next longer listed parent absent stuck => exact absurd (tidy.removable _) stuck

section Twins
variable {v : World} {place : List Bytes} {base : Bytes}

/-- Two systems that refuse the same and agree on what matters for replacing the file `base` of a
folder, which is not what it holds. -/
structure Twin (v w : World) (place : List Bytes) (base : Bytes) : Prop where
  refuses : v.refuses = w.refuses
  numbers : v.temporaryNumbers = w.temporaryNumbers
  folder : v.files.root.at? place = some none
  folder' : w.files.root.at? place = some none
  temporaries : ∀ n ∈ w.temporaryNumbers, v.files.root.at? (place ++ [temporaryStem base ++ n]) =
    w.files.root.at? (place ++ [temporaryStem base ++ n])
  goal : v.files.root.at? (place ++ [base]) = some none ↔ w.files.root.at? (place ++ [base]) = some none

theorem change_answer (w : World) (op : FileOp) (path : Bytes) (paths : List Bytes)
    (result : FileTree → Except FileCause FileTree) :
    (w.change op path paths result).1 =
      (w.refuses op path).elim (((result w.files).map fun _ => ()).mapError (⟨op, paths, ·⟩))
        fun cause => .error ⟨op, paths, cause⟩ := by
  rw [change]
  cases w.refuses op path with
  | some cause => rfl
  | none => cases result w.files <;> rfl

section
variable (twin : v.Twin w place base) (placed : IsPlace place)
include twin placed

theorem Twin.create {n : Bytes} (mem : n ∈ w.temporaryNumbers) (named : IsName (temporaryStem base ++ n)) :
    ((Host.create (ofNames true (place ++ [temporaryStem base ++ n])) : InMemory _) v).1 =
      ((Host.create (ofNames true (place ++ [temporaryStem base ++ n])) : InMemory _) w).1 := by
  refine (change_answer v _ _ _ _).trans (Eq.trans ?_ (change_answer w _ _ _ _).symm)
  rw [create_eq placed twin.folder named, create_eq placed twin.folder' named, twin.refuses]
  cases fits : limits (place ++ [temporaryStem base ++ n]) with
  | error cause => rfl
  | ok q =>
    rw [limits_ok fits]
    simp only [Except.bind, twin.temporaries n mem]
    split_ifs <;> rfl

theorem Twin.createNumbered (numbered : w.Numbered) (named : base ≠ [] ∧ slash ∉ base) {ns : List Bytes}
    (known : ∀ n ∈ ns, n ∈ w.temporaryNumbers) :
    ((createNumbered (folderPath place ++ temporaryStem base) ns : InMemory _) v).1 =
      ((createNumbered (folderPath place ++ temporaryStem base) ns : InMemory _) w).1 := by
  induction ns with
  | nil => rfl
  | cons n ns ih =>
    rw [List.forall_mem_cons] at known
    have path : folderPath place ++ temporaryStem base ++ n =
        ofNames true (place ++ [temporaryStem base ++ n]) := by
      rw [ofNames_concat, List.append_assoc]
    have same := twin.create placed known.1 (isName_temporary named (numbered.whole n known.1))
    rw [DomTemplate.createNumbered, path, bind_apply, bind_apply, same]
    cases made : ((Host.create (ofNames true (place ++ [temporaryStem base ++ n])) : InMemory _) w).1 with
    | ok u => rfl
    | error e =>
      rw [made] at same
      rw [create_error same, create_error made]
      dsimp only
      split_ifs with used
      · exact ih known.2
      · rfl

theorem Twin.createTemporary (numbered : w.Numbered) (named : IsName base) :
    ((createTemporary (ofNames true place) base : InMemory _) v).1 =
      ((createTemporary (ofNames true place) base : InMemory _) w).1 := by
  have whole : ¬base.any (· == slash) = true := by simpa using named.whole
  simp only [DomTemplate.createTemporary, if_neg whole, bind_apply, temporaryNumbers_apply,
    twin.numbers]
  rw [inDirectory_ofNames placed]
  exact twin.createNumbered placed numbered ⟨named.nonempty, named.whole⟩ fun _ => id

end

/-- A new temporary file stands next to the one that it is for. -/
theorem createTemporary_next (numbered : w.Numbered) (placed : IsPlace place) (named : IsName base) :
    (∃ e, (createTemporary (ofNames true place) base : InMemory _) w = (.error e, w)) ∨
    ∃ name, IsName name ∧ name ≠ base ∧ limits (place ++ [name]) = .ok (place ++ [name]) ∧
      w.files.root.at? (place ++ [name]) = none ∧
      (createTemporary (ofNames true place) base : InMemory _) w =
        (.ok (ofNames true (place ++ [name])), w.withFile (place ++ [name]) []) := by
  have cases := createTemporary_cases numbered (ofNames true (place ++ [base]))
  rw [dir_ofNames named placed, base_ofNames named] at cases
  refine cases.imp_right ?_
  rintro ⟨name, hidden, longer, -, found, absent, created⟩
  rw [inDirectory_ofNames placed, ← ofNames_concat] at found created
  have aimed := locate_ok (IsPlace.concat.mpr ⟨placed, hidden⟩) found
  rw [aimed] at found absent created
  refine ⟨name, hidden, ?_, ?_, absent, created⟩
  · rintro rfl
    exact absurd longer (lt_irrefl _)
  · obtain ⟨front, folder, -, same⟩ := locate_entry found (by rw [absent]; simp)
    obtain ⟨rfl, -⟩ := List.append_inj' same rfl
    rwa [locate_concat (IsPlace.concat.mpr ⟨placed, hidden⟩) folder] at found

section
variable {name : Bytes} (placed : IsPlace place) (hidden : IsName name)
  (fits : limits (place ++ [name]) = .ok (place ++ [name]))
  (folder : w.files.root.at? place = some none) (absent : w.files.root.at? (place ++ [name]) = none)
  (text : Bytes)
include folder absent

theorem withFile_folder {q : List Bytes} : (w.withFile (place ++ [name]) text).files.root.at? q = some none ↔
    w.files.root.at? q = some none :=
  Folder.at?_put_folder folder (by rw [absent]; simp)

include placed hidden fits

theorem write_next :
    (Host.write (ofNames true (place ++ [name])) text : InMemory _) (w.withFile (place ++ [name]) []) =
      (w.refuses .write (ofNames true (place ++ [name]))).elim (.ok (), w.withFile (place ++ [name]) text)
        fun cause => (.error ⟨.write, [ofNames true (place ++ [name])], cause⟩,
          w.withFile (place ++ [name]) []) := by
  refine (change_allowed (write_ok placed ((withFile_folder folder absent []).mpr folder) hidden fits)).trans ?_
  simp only [withFile, withRoot, Folder.put_put]

theorem rename_next (named : IsName base) :
    ((Host.rename (ofNames true (place ++ [name])) (ofNames true (place ++ [base])) : InMemory _)
        (w.withFile (place ++ [name]) text)).1 =
      (w.refuses .rename (ofNames true (place ++ [name]))).elim
        (((limits (place ++ [base])).bind fun q =>
          if w.files.root.at? q = some none then .error .alreadyExists else .ok ()).mapError
            (⟨.rename, [ofNames true (place ++ [name]), ofNames true (place ++ [base])], ·⟩))
        fun cause => .error ⟨.rename, [ofNames true (place ++ [name]), ofNames true (place ++ [base])], cause⟩ := by
  refine (change_answer _ _ _ _ _).trans ?_
  rw [rename_eq placed ((withFile_folder folder absent text).mpr folder) hidden named fits
    (Folder.at?_eq_file.mpr (Folder.get?_put folder))]
  cases limits (place ++ [base]) with
  | error cause => rfl
  | ok q =>
    simp only [Except.bind, withFile_folder folder absent text]
    split_ifs <;> rfl

end

section
variable (twin : v.Twin w place base) (placed : IsPlace place) (named : IsName base)
include twin placed named

theorem Twin.fillAndMove {name : Bytes} (hidden : IsName name)
    (fits : limits (place ++ [name]) = .ok (place ++ [name]))
    (absent : v.files.root.at? (place ++ [name]) = none)
    (absent' : w.files.root.at? (place ++ [name]) = none) (content content' : Bytes) :
    ((fillAndMove (ofNames true (place ++ [name])) (ofNames true (place ++ [base])) content : InMemory _)
        (v.withFile (place ++ [name]) [])).1 =
      ((fillAndMove (ofNames true (place ++ [name])) (ofNames true (place ++ [base])) content' : InMemory _)
        (w.withFile (place ++ [name]) [])).1 := by
  have publish (u : World) : (Host.publish (ofNames true (place ++ [name])) : InMemory _) u =
    ((u.refuses .chmod (ofNames true (place ++ [name]))).elim (.ok ()) fun cause =>
      .error ⟨.chmod, [ofNames true (place ++ [name])], cause⟩, u) := change_kept u _ _ _
  have close (u : World) : (Host.close (ofNames true (place ++ [name])) : InMemory _) u =
    ((u.refuses .close (ofNames true (place ++ [name]))).elim (.ok ()) fun cause =>
      .error ⟨.close, [ofNames true (place ++ [name])], cause⟩, u) := change_kept u _ _ _
  have still (u : World) (text : Bytes) : (u.withFile (place ++ [name]) text).refuses = u.refuses := rfl
  rw [DomTemplate.fillAndMove, DomTemplate.fillAndMove, bind_apply, bind_apply,
    write_next placed hidden fits twin.folder absent, write_next placed hidden fits twin.folder' absent',
    twin.refuses]
  -- each step is refused by both systems, or by none
  cases w.refuses .write (ofNames true (place ++ [name])) with
  | some cause => rfl
  | none =>
    dsimp only [Option.elim_none]
    rw [bind_apply, bind_apply, publish, publish, still, still, twin.refuses]
    cases w.refuses .chmod (ofNames true (place ++ [name])) with
    | some cause => rfl
    | none =>
      dsimp only [Option.elim_none]
      rw [bind_apply, bind_apply, close, close, still, still, twin.refuses]
      cases w.refuses .close (ofNames true (place ++ [name])) with
      | some cause => rfl
      | none =>
        dsimp only [Option.elim_none]
        rw [rename_next placed hidden fits twin.folder absent content named,
          rename_next placed hidden fits twin.folder' absent' content' named, twin.refuses]
        cases reached : limits (place ++ [base]) with
        | error cause => rfl
        | ok q =>
          rw [limits_ok reached]
          simp only [Except.bind, twin.goal]

theorem Twin.replaceFile (numbered : w.Numbered) (fits : limits place = .ok place) (content content' : Bytes) :
    ((replaceFile (ofNames true (place ++ [base])) content : InMemory _) v).1 =
      ((replaceFile (ofNames true (place ++ [base])) content' : InMemory _) w).1 := by
  have there := hasFolder_place placed twin.folder fits
  have there' := hasFolder_place placed twin.folder' fits
  have numbered' : v.Numbered := by
    rw [Numbered, twin.numbers]
    exact numbered
  have same := twin.createTemporary placed numbered named
  rw [DomTemplate.replaceFile, DomTemplate.replaceFile, bind_apply, bind_apply, dir_ofNames named placed,
    base_ofNames named, makeDirectories_existing twin.refuses there there',
    makeDirectories_existing rfl there' there']
  cases ((makeDirectories (ofNames true place) : InMemory _) w).1 with
  | error e => rfl
  | ok u =>
    dsimp only
    rw [bind_apply, bind_apply]
    rcases createTemporary_next numbered' placed named with
      ⟨e, failed⟩ | ⟨name, hidden, other, short, absent, made⟩
    · rcases createTemporary_next numbered placed named with
        ⟨e', failed'⟩ | ⟨name', -, -, -, -, made'⟩
      · rw [failed, failed'] at same
        cases same
        rw [failed, failed']
        rfl
      · rw [failed, made'] at same
        cases same
    · rcases createTemporary_next numbered placed named with
        ⟨e', failed'⟩ | ⟨name', -, -, -, absent', made'⟩
      · rw [made, failed'] at same
        cases same
      · rw [made, made'] at same
        have same : ofNames true (place ++ [name]) = ofNames true (place ++ [name']) := Except.ok.inj same
        rw [ofNames_concat, ofNames_concat] at same
        obtain rfl := List.append_cancel_left same
        rw [made, made']
        dsimp only
        rw [bind_apply, bind_apply]
        exact twin.fillAndMove placed named hidden short absent absent' content content'

end

end Twins

end World

/-- A step that neither depends on the messages so far nor adds to them. -/
def Mute {α : Type} (x : InMemory α) : Prop :=
  ∀ (w : World) (errors : Bytes), x (w.withErrors errors) = ((x w).1, (x w).2.withErrors errors)

section Muted
variable {α β : Type}

theorem mute_pure (a : α) : Mute (pure a : InMemory α) := fun _ _ => rfl

theorem Mute.bind {x : InMemory α} {f : α → InMemory β} (first : Mute x) (next : ∀ a, Mute (f a)) :
    Mute (x >>= f) := by
  intro w errors
  rw [bind_apply, bind_apply, first, next]

theorem mute_change (op : FileOp) (path : Bytes) (paths : List Bytes)
    (result : FileTree → Except FileCause FileTree) :
    Mute fun w => w.change op path paths result := by
  intro w errors
  have same : (w.withErrors errors).refuses = w.refuses ∧ (w.withErrors errors).files = w.files := ⟨rfl, rfl⟩
  simp only [World.change, same]
  cases w.refuses op path with
  | some cause => rfl
  | none => cases result w.files <;> rfl

theorem mute_makeLastDirectory (path : Bytes) : Mute (makeLastDirectory path) := by
  refine (mute_change .mkdir path [path] fun t => t.makeDirectory path).bind fun made => ?_
  cases made with
  | ok u => exact mute_pure _
  | error e =>
    refine Mute.bind (fun _ _ => rfl) fun kind => ?_
    rcases kind with e' | _ | _ <;> exact mute_pure _

theorem mute_makeDirectories (path : Bytes) : Mute (makeDirectories path) := by
  rw [makeDirectories]
  refine Mute.bind (fun _ _ => rfl) fun kind => ?_
  rcases kind with e | _ | _
  · dsimp only
    split_ifs with top
    · exact mute_makeLastDirectory path
    · refine (mute_makeDirectories (parentPath path)).bind fun above => ?_
      cases above with
      | ok u => exact mute_makeLastDirectory path
      | error e => exact mute_pure _
  · exact mute_pure _
  · exact mute_pure _
termination_by path.length
decreasing_by exact length_parentPath_lt top

theorem mute_createNumbered (stem : Bytes) (ns : List Bytes) : Mute (createNumbered stem ns) := by
  induction ns with
  | nil => exact mute_pure _
  | cons n ns ih =>
    refine (mute_change .openFile (stem ++ n) [stem ++ n] fun t => t.create (stem ++ n)).bind fun made => ?_
    cases made with
    | ok u => exact mute_pure _
    | error e =>
      dsimp only
      split_ifs with used
      · exact ih
      · exact mute_pure _

theorem mute_createTemporary (dir base : Bytes) : Mute (createTemporary dir base) := by
  simp only [createTemporary]
  split_ifs with slashed
  · exact mute_pure _
  · exact Mute.bind (fun _ _ => rfl) (mute_createNumbered _)

theorem mute_fillAndMove (path goal content : Bytes) : Mute (fillAndMove path goal content) := by
  refine (mute_change .write path [path] fun t => t.write path content).bind fun filled => ?_
  cases filled with
  | error e => exact mute_pure _
  | ok u =>
    refine (mute_change .chmod path [path] .ok).bind fun published => ?_
    cases published with
    | error e => exact mute_pure _
    | ok u =>
      refine (mute_change .close path [path] .ok).bind fun closed => ?_
      cases closed with
      | error e => exact mute_pure _
      | ok u => exact mute_change .rename path [path, goal] fun t => t.rename path goal

theorem mute_replaceFile (path content : Bytes) : Mute (replaceFile path content) := by
  refine (mute_makeDirectories (dir path)).bind fun made => ?_
  cases made with
  | error e => exact mute_pure _
  | ok u =>
    refine (mute_createTemporary (dir path) (base path)).bind fun created => ?_
    cases created with
    | error e => exact mute_pure _
    | ok temporary =>
      refine (mute_fillAndMove temporary path content).bind fun moved => ?_
      exact (mute_change .remove temporary [temporary] fun t => t.remove temporary).bind
        fun _ => mute_pure _

theorem mute_writeGenerated (path content : Bytes) : Mute (writeGenerated path content) := by
  have replace : Mute (do return (← replaceFile path content).map fun _ => true : InMemory _) :=
    (mute_replaceFile path content).bind fun _ => mute_pure _
  refine Mute.bind (fun _ _ => rfl) fun read => ?_
  cases read with
  | error e => exact replace
  | ok old =>
    dsimp only
    split_ifs with same
    · exact mute_pure _
    · exact replace

end Muted
end DomTemplate
