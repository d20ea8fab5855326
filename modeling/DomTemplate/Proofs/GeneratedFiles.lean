import DomTemplate.Files.Output
import DomTemplate.Files.World
import DomTemplate.Proofs.FileTrees

/-! Writing a generated file in memory. A file that has its content is left alone; any other is
replaced through a temporary file, of which nothing is left whether that goes well or not. -/

namespace DomTemplate
open Ascii DomTemplate.Path FileTree

theorem inDirectory_ofNames {place : List Bytes} (h : IsPlace place) (name : Bytes) :
    inDirectory (ofNames true place) name = folderPath place ++ name := by
  rcases List.eq_nil_or_concat place with rfl | ⟨front, last, rfl⟩
  · rfl
  · rw [List.concat_eq_append] at h ⊢
    obtain ⟨-, named⟩ := IsPlace.concat.mp h
    obtain ⟨start, b, rfl⟩ := (List.eq_nil_or_concat last).resolve_left named.nonempty
    rw [List.concat_eq_append] at named ⊢
    have other : b ≠ slash := by
      rintro rfl
      exact named.whole (by simp)
    rw [inDirectory, ofNames_concat, folderPath_concat, ← List.append_assoc, List.getLast?_concat,
      if_neg (by simpa using other)]

namespace FileTree
variable {place : List Bytes}

theorem limits_error {cause : FileCause} (h : limits place = .error cause) : cause ≠ .alreadyExists := by
  rw [limits] at h
  split_ifs at h <;> cases h <;> decide

/-- A folder can be reached if something in it can. -/
theorem limits_front {name : Bytes} (h : limits (place ++ [name]) = .ok (place ++ [name])) :
    limits place = .ok place := by
  have shorter : ofNames true place <+: ofNames true (place ++ [name]) := by
    rw [ofNames_concat]
    rcases List.eq_nil_or_concat place with rfl | ⟨front, last, rfl⟩
    · exact List.prefix_append _ _
    · rw [List.concat_eq_append, ofNames_concat, folderPath_concat, List.append_assoc]
      exact List.prefix_append _ _
  have size := shorter.length_le
  simp only [limits] at h ⊢
  split_ifs at h with null long names
  rw [if_neg, if_neg (by omega), if_neg]
  · intro any
    rw [List.any_append, any, Bool.true_or] at names
    exact names rfl
  · intro any
    obtain ⟨rest, whole⟩ := shorter
    rw [← whole, List.any_append, any, Bool.true_or] at null
    exact null rfl

end FileTree

/-- In memory, one thing happens after the other. -/
theorem bind_apply {α β : Type} (x : InMemory α) (f : α → InMemory β) (w : World) :
    (x >>= f) w = f (x w).1 (x w).2 := rfl

theorem pure_apply {α : Type} (a : α) (w : World) : (pure a : InMemory α) w = (a, w) := rfl

section Host
variable (path : Bytes) (w : World)

theorem currentDirectory_apply :
    (Host.currentDirectory : InMemory _) w = (ofNames true w.files.current, w) := rfl

theorem temporaryNumbers_apply :
    (Host.temporaryNumbers : InMemory _) w = (w.temporaryNumbers, w) := rfl

theorem readFile_apply : (Host.readFile path : InMemory _) w = (w.readFile path, w) := rfl

theorem isDirectory_apply : (Host.isDirectory path : InMemory _) w =
    (w.look .stat path fun t => t.isDirectory path, w) := rfl

theorem list_apply : (Host.list path : InMemory _) w =
    (w.look .openFile path fun t => t.list path, w) := rfl

theorem filesBelow_apply (skip : Bytes → Bool) : (Host.filesBelow skip path : InMemory _) w =
    (w.look .lstat path fun t => t.filesBelow skip path, w) := rfl

theorem makeDirectory_apply : (Host.makeDirectory path : InMemory _) w =
    w.change .mkdir path [path] fun t => t.makeDirectory path := rfl

theorem create_apply : (Host.create path : InMemory _) w =
    w.change .openFile path [path] fun t => t.create path := rfl

end Host

namespace World

/-- Nothing is refused for a reason of its own, and the numbers of temporary files are names. -/
structure Plain (w : World) : Prop where
  free : ∀ op path, w.refuses op path = none
  numbers : ∀ n ∈ w.temporaryNumbers, slash ∉ n

def withRoot (w : World) (root : Folder) : World := { w with files := { w.files with root } }

def withErrors (w : World) (errors : Bytes) : World := { w with errors }

variable {w : World} {place : List Bytes} {name : Bytes}

theorem Plain.withRoot (h : w.Plain) (root : Folder) : (w.withRoot root).Plain := ⟨h.free, h.numbers⟩

theorem look_ok {α : Type} (h : w.Plain) {op : FileOp} {path : Bytes} {a : α}
    {result : FileTree → Except FileCause α} :
    w.look op path result = .ok a ↔ result w.files = .ok a := by
  rw [look, h.free]
  cases result w.files <;> simp

theorem change_ok (h : w.Plain) {op : FileOp} {path : Bytes} {paths : List Bytes} {files : FileTree}
    {result : FileTree → Except FileCause FileTree} (made : result w.files = .ok files) :
    w.change op path paths result = (.ok (), { w with files }) := by
  simp only [change, h.free, made]

theorem change_error (h : w.Plain) {op : FileOp} {path : Bytes} {paths : List Bytes} {cause : FileCause}
    {result : FileTree → Except FileCause FileTree} (failed : result w.files = .error cause) :
    w.change op path paths result = (.error ⟨op, paths, cause⟩, w) := by
  simp only [change, h.free, failed]

theorem readFile_ok (h : w.Plain) (names : IsPlace place) {content : Bytes} :
    w.readFile (ofNames true place) = .ok content ↔
      w.files.root.at? place = some (some content) ∧ limits place = .ok place := by
  rw [Folder.at?_eq_file, ← entry_ok names]
  simp only [readFile, look, h.free]
  cases w.files.entry (ofNames true place) with
  | error cause => simp [bind, Except.bind]
  | ok e => cases e <;> simp [bind, Except.bind]

theorem isDirectory_ok (h : w.Plain) (names : IsPlace place) {b : Bool} :
    w.look .stat (ofNames true place) (fun t => t.isDirectory (ofNames true place)) = .ok b ↔
      (w.files.root.at? place).map Option.isNone = some b ∧ limits place = .ok place := by
  rw [look_ok h, FileTree.isDirectory]
  constructor
  · intro answer
    obtain ⟨e, found, answer⟩ := exists_of_bind_ok answer
    obtain ⟨here, fits⟩ := (entry_ok names).mp found
    refine ⟨?_, fits⟩
    rw [Folder.at?, here]
    cases e <;> exact congrArg some (Except.ok.inj answer)
  · rintro ⟨kind, fits⟩
    cases here : w.files.root.get? place with
    | none => simp [Folder.at?, here] at kind
    | some e =>
      rw [(entry_ok names).mpr ⟨here, fits⟩]
      rw [Folder.at?, here] at kind
      cases e <;> exact congrArg Except.ok (Option.some.inj kind)

/-- The name of the temporary file for names that start with `stem`: the first that is not in use. -/
def temporary? (w : World) (place : List Bytes) (stem : Bytes) : List Bytes → Option Bytes
  | [] => none
  | n :: ns =>
    if (limits (place ++ [stem ++ n])).isOk then
      if (w.files.root.at? (place ++ [stem ++ n])).isNone then some (stem ++ n)
      else temporary? w place stem ns
    else none

theorem writeGenerated_same {path content : Bytes} (same : w.readFile path = .ok content) :
    (writeGenerated path content : InMemory _) w = (.ok false, w) := by
  rw [writeGenerated, bind_apply, readFile_apply, same]
  simp only [if_true]
  rfl

theorem writeGenerated_other {path content : Bytes} (other : w.readFile path ≠ .ok content) :
    (writeGenerated path content : InMemory _) w =
      (((replaceFile path content : InMemory _) w).1.map fun _ => true,
        ((replaceFile path content : InMemory _) w).2) := by
  rw [writeGenerated, bind_apply, readFile_apply]
  cases read : w.readFile path with
  | error e => rfl
  | ok old =>
    have differ : old ≠ content := by
      rintro rfl
      exact other read
    simp only [if_neg differ]
    rfl

theorem temporary?_withErrors (errors : Bytes) (place : List Bytes) (stem : Bytes) (ns : List Bytes) :
    (w.withErrors errors).temporary? place stem ns = w.temporary? place stem ns := by
  induction ns with
  | nil => rfl
  | cons n ns ih =>
    rw [temporary?, temporary?, ih]
    rfl

section
variable (h : w.Plain) (folder : w.files.root.at? place = some none) (names : IsPlace place)
include h folder names

theorem makeDirectories_folder (fits : limits place = .ok place) :
    (makeDirectories (ofNames true place) : InMemory _) w = (.ok (), w) := by
  rw [makeDirectories, bind_apply, isDirectory_apply,
    (isDirectory_ok h names).mpr ⟨by rw [folder]; rfl, fits⟩]
  rfl

theorem createNumbered_spec {stem : Bytes} {ns : List Bytes} (stems : ∀ n ∈ ns, IsName (stem ++ n)) :
    (∀ name, w.temporary? place stem ns = some name →
      IsName name ∧ stem <+: name ∧ limits (place ++ [name]) = .ok (place ++ [name]) ∧
      w.files.root.at? (place ++ [name]) = none ∧
      (createNumbered (folderPath place ++ stem) ns : InMemory _) w =
        (.ok (ofNames true (place ++ [name])),
          w.withRoot (w.files.root.put (place ++ [name]) (.file [])))) ∧
    (w.temporary? place stem ns = none →
      ∃ e, (createNumbered (folderPath place ++ stem) ns : InMemory _) w = (.error e, w)) := by
  induction ns with
  | nil => exact ⟨nofun, fun _ => ⟨_, rfl⟩⟩
  | cons n ns ih =>
    -- a number that makes the name too long ends the search, one in use is passed over
    rw [List.forall_mem_cons] at stems
    have path : folderPath place ++ stem ++ n = ofNames true (place ++ [stem ++ n]) := by
      rw [ofNames_concat, List.append_assoc]
    have answer := create_eq names folder stems.1
    rw [temporary?, createNumbered, path, bind_apply, create_apply]
    cases fits : limits (place ++ [stem ++ n]) with
    | error cause =>
      rw [fits] at answer
      rw [change_error h answer]
      simp only [Except.isOk, Except.toBool, if_false, Bool.false_eq_true, if_neg (limits_error fits)]
      exact ⟨nofun, fun _ => ⟨_, rfl⟩⟩
    | ok q =>
      obtain rfl := limits_ok fits
      rw [fits] at answer
      cases used : w.files.root.at? (place ++ [stem ++ n]) with
      | none =>
        rw [change_ok h (answer.trans (if_pos used))]
        refine ⟨?_, nofun⟩
        rintro name ⟨⟩
        exact ⟨stems.1, List.prefix_append _ _, fits, used, rfl⟩
      | some kind =>
        rw [change_error h (answer.trans (if_neg (by simp [used])))]
        exact ih stems.2

section Moving
variable {base temporary : Bytes} (hidden : IsName temporary)
  (fits : limits (place ++ [temporary]) = .ok (place ++ [temporary]))
  (absent : w.files.root.at? (place ++ [temporary]) = none) (content : Bytes)
include hidden fits absent

/-- The temporary file is filled, before it is moved. -/
theorem fillAndMove_new (goal : Bytes) :
    (fillAndMove (ofNames true (place ++ [temporary])) goal content : InMemory _)
        (w.withRoot (w.files.root.put (place ++ [temporary]) (.file []))) =
      (Host.rename (ofNames true (place ++ [temporary])) goal : InMemory _)
        (w.withRoot (w.files.root.put (place ++ [temporary]) (.file content))) := by
  have parent : (w.files.root.put (place ++ [temporary]) (.file [])).at? place = some none := by
    rw [Folder.at?_put_new absent (by simp), folder]
  have filled : (Host.write (ofNames true (place ++ [temporary])) content : InMemory _)
      (w.withRoot (w.files.root.put (place ++ [temporary]) (.file []))) =
        (.ok (), w.withRoot (w.files.root.put (place ++ [temporary]) (.file content))) := by
    refine (change_ok (h.withRoot _) (write_ok names parent hidden fits)).trans ?_
    simp only [withRoot, Folder.put_put]
  have kept (op : FileOp) (path : Bytes) (v : World) (plain : v.Plain) :
      v.change op path [path] .ok = (.ok (), v) := change_ok plain rfl
  rw [fillAndMove, bind_apply, filled]
  simp only [bind_apply, Host.publish, Host.close, kept _ _ _ (h.withRoot _)]

variable (named : IsName base) (other : temporary ≠ base)
include named other

/-- The filled file takes the place of what it replaces, and the temporary one is gone. -/
theorem move_ok (reached : limits (place ++ [base]) = .ok (place ++ [base]))
    (free : w.files.root.at? (place ++ [base]) ≠ some none) :
    ∃ e, (Host.rename (ofNames true (place ++ [temporary])) (ofNames true (place ++ [base])) : InMemory _)
        (w.withRoot (w.files.root.put (place ++ [temporary]) (.file content))) =
      (.ok (), w.withRoot (w.files.root.put (place ++ [base]) (.file content))) ∧
    (Host.remove (ofNames true (place ++ [temporary])) : InMemory _)
        (w.withRoot (w.files.root.put (place ++ [base]) (.file content))) =
      (.error e, w.withRoot (w.files.root.put (place ++ [base]) (.file content))) := by
  have differ : place ++ [base] ≠ place ++ [temporary] := by simpa using other.symm
  have parent (q : List Bytes) (longer : place ≠ q) (unused : w.files.root.at? q ≠ some none) :
      (w.files.root.put q (.file content)).at? place = some none := by
    rw [Folder.at?_put_of_ne unused longer, folder]
  have moved := rename_eq
    (t := ⟨w.files.root.put (place ++ [temporary]) (.file content), w.files.current⟩)
    names (parent _ (by simp) (by rw [absent]; simp)) hidden named fits
    (Folder.at?_eq_file.mpr (Folder.get?_put folder))
  rw [reached, Except.bind, if_neg (by rwa [Folder.at?_put_new absent differ])] at moved
  have gone := remove_absent (t := ⟨w.files.root.put (place ++ [base]) (.file content), w.files.current⟩)
    names (parent _ (by simp) free) hidden fits (by rw [Folder.at?_put_of_ne free differ.symm, absent])
  refine ⟨_, (change_ok (h.withRoot _) moved).trans ?_, change_error (h.withRoot _) gone⟩
  rw [Folder.erase_put absent]
  rfl

/-- If the filled file cannot be moved, nothing is left of it. -/
theorem move_error (blocked : limits (place ++ [base]) ≠ .ok (place ++ [base]) ∨
      w.files.root.at? (place ++ [base]) = some none) :
    ∃ e, (Host.rename (ofNames true (place ++ [temporary])) (ofNames true (place ++ [base])) : InMemory _)
        (w.withRoot (w.files.root.put (place ++ [temporary]) (.file content))) =
      (.error e, w.withRoot (w.files.root.put (place ++ [temporary]) (.file content))) ∧
    (Host.remove (ofNames true (place ++ [temporary])) : InMemory _)
        (w.withRoot (w.files.root.put (place ++ [temporary]) (.file content))) = (.ok (), w) := by
  have differ : place ++ [base] ≠ place ++ [temporary] := by simpa using other.symm
  have parent : (w.files.root.put (place ++ [temporary]) (.file content)).at? place = some none := by
    rw [Folder.at?_put_new absent (by simp), folder]
  have filled : (w.files.root.put (place ++ [temporary]) (.file content)).at? (place ++ [temporary]) =
      some (some content) := Folder.at?_eq_file.mpr (Folder.get?_put folder)
  obtain ⟨cause, failed⟩ := rename_error (t := ⟨w.files.root.put (place ++ [temporary]) (.file content),
    w.files.current⟩) names parent hidden named fits filled
    (by rwa [Folder.at?_put_new absent differ])
  have gone := remove_ok (t := ⟨w.files.root.put (place ++ [temporary]) (.file content), w.files.current⟩)
    names parent hidden fits (by rw [filled]; simp)
  refine ⟨_, change_error (h.withRoot _) failed, (change_ok (h.withRoot _) gone).trans ?_⟩
  rw [Folder.erase_put absent]
  rfl

end Moving

/-- The start of the names of the temporary files for the file `base`. -/
def temporaryStem (base : Bytes) : Bytes := dot :: base ++ [dot]

/-- Whether the file `base` of a folder can be replaced. -/
def replaceable (w : World) (place : List Bytes) (base : Bytes) : Prop :=
  w.temporary? place (temporaryStem base) w.temporaryNumbers ≠ none ∧
    limits (place ++ [base]) = .ok (place ++ [base]) ∧ w.files.root.at? (place ++ [base]) ≠ some none

variable {base : Bytes} (named : IsName base)
include named

omit h folder names named in
theorem isName_temporary {n : Bytes} (named : base ≠ [] ∧ slash ∉ base) (whole : slash ∉ n) :
    IsName (temporaryStem base ++ n) := by
  refine ⟨by simp [temporaryStem], by simp [temporaryStem, named.2, whole]; decide, ?_⟩
  obtain ⟨c, rest, rfl⟩ := List.exists_cons_of_ne_nil named.1
  simp [temporaryStem, here, up]

theorem createTemporary_spec :
    (∀ temporary, w.temporary? place (temporaryStem base) w.temporaryNumbers = some temporary →
      IsName temporary ∧ temporary ≠ base ∧
      limits (place ++ [temporary]) = .ok (place ++ [temporary]) ∧
      w.files.root.at? (place ++ [temporary]) = none ∧
      (createTemporary (ofNames true place) base : InMemory _) w =
        (.ok (ofNames true (place ++ [temporary])),
          w.withRoot (w.files.root.put (place ++ [temporary]) (.file [])))) ∧
    (w.temporary? place (temporaryStem base) w.temporaryNumbers = none →
      ∃ e, (createTemporary (ofNames true place) base : InMemory _) w = (.error e, w)) := by
  have whole : base.any (· == slash) = false := by
    rw [List.any_eq_false]
    intro b mem same
    exact named.whole (eq_of_beq same ▸ mem)
  have same : (createTemporary (ofNames true place) base : InMemory _) w =
      (createNumbered (folderPath place ++ temporaryStem base) w.temporaryNumbers : InMemory _) w := by
    simp only [createTemporary, whole, Bool.false_eq_true, if_false]
    rw [bind_apply, ← inDirectory_ofNames names]
    rfl
  obtain ⟨found, none⟩ := createNumbered_spec h folder names
    fun n mem => isName_temporary ⟨named.nonempty, named.whole⟩ (h.numbers n mem)
  rw [same]
  refine ⟨fun temporary some => ?_, none⟩
  obtain ⟨hidden, ⟨n, stem⟩, fits, absent, created⟩ := found temporary some
  refine ⟨hidden, ?_, fits, absent, created⟩
  rintro rfl
  have longer := congrArg List.length stem
  simp only [temporaryStem, List.length_append, List.length_cons] at longer
  omega

section
variable (fits : limits place = .ok place) {content : Bytes}
include fits

theorem replaceFile_ok (able : w.replaceable place base) :
    (replaceFile (ofNames true (place ++ [base])) content : InMemory _) w =
      (.ok (), w.withRoot (w.files.root.put (place ++ [base]) (.file content))) := by
  obtain ⟨possible, reached, free⟩ := able
  obtain ⟨temporary, found⟩ := Option.ne_none_iff_exists'.mp possible
  obtain ⟨hidden, other, short, absent, created⟩ :=
    (createTemporary_spec h folder names named).1 temporary found
  obtain ⟨e, moved, gone⟩ := move_ok h folder names hidden short absent content named other reached free
  simp only [replaceFile, dir_ofNames named names, base_ofNames named, bind_apply, created,
    makeDirectories_folder h folder names fits, fillAndMove_new h folder names hidden short absent, moved,
    gone]
  rfl

theorem replaceFile_error (unable : ¬w.replaceable place base) :
    ∃ e, (replaceFile (ofNames true (place ++ [base])) content : InMemory _) w = (.error e, w) := by
  obtain ⟨chosen, exhausted⟩ := createTemporary_spec h folder names named
  simp only [replaceFile, dir_ofNames named names, base_ofNames named, bind_apply,
    makeDirectories_folder h folder names fits]
  cases found : w.temporary? place (temporaryStem base) w.temporaryNumbers with
  | none =>
    obtain ⟨e, failed⟩ := exhausted found
    rw [failed]
    exact ⟨e, rfl⟩
  | some temporary =>
    obtain ⟨hidden, other, short, absent, created⟩ := chosen temporary found
    have blocked : limits (place ++ [base]) ≠ .ok (place ++ [base]) ∨
        w.files.root.at? (place ++ [base]) = some none := by
      by_contra neither
      rw [not_or, not_not] at neither
      exact unable ⟨by rw [found]; exact Option.some_ne_none _, neither⟩
    obtain ⟨e, stays, gone⟩ := move_error h folder names hidden short absent content named other blocked
    simp only [created, bind_apply, fillAndMove_new h folder names hidden short absent, stays, gone]
    exact ⟨e, rfl⟩

/-- Whether writing `content` to the file `base` of a folder goes well. -/
def accepts (w : World) (place : List Bytes) (base content : Bytes) : Prop :=
  w.readFile (ofNames true (place ++ [base])) = .ok content ∨ w.replaceable place base

omit h folder names named fits in
theorem accepts_withErrors {errors : Bytes} :
    (w.withErrors errors).accepts place base content ↔ w.accepts place base content := by
  rw [accepts, accepts, replaceable, replaceable, temporary?_withErrors]
  rfl

theorem writeGenerated_ok (able : w.accepts place base content) :
    ∃ changed, (writeGenerated (ofNames true (place ++ [base])) content : InMemory _) w =
      (.ok changed, w.withRoot (w.files.root.put (place ++ [base]) (.file content))) := by
  by_cases same : w.readFile (ofNames true (place ++ [base])) = .ok content
  · have there := ((readFile_ok h (IsPlace.concat.mpr ⟨names, named⟩)).mp same).1
    rw [Folder.put_self (Folder.at?_eq_file.mp there)]
    exact ⟨false, writeGenerated_same same⟩
  · rw [writeGenerated_other same, replaceFile_ok h folder names named fits (able.resolve_left same)]
    exact ⟨true, rfl⟩

theorem writeGenerated_error (unable : ¬w.accepts place base content) :
    ∃ e, (writeGenerated (ofNames true (place ++ [base])) content : InMemory _) w = (.error e, w) := by
  rw [accepts, not_or] at unable
  obtain ⟨e, failed⟩ := replaceFile_error h folder names named fits unable.2
  rw [writeGenerated_other unable.1, failed]
  exact ⟨e, rfl⟩

end

end

end World
end DomTemplate
