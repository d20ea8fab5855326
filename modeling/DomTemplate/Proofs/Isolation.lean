import DomTemplate.Proofs.Failures
import DomTemplate.Proofs.Patterns
import DomTemplate.Proofs.WriteAll

/-! What a failure does to the rest of a run. On a system that may refuse any operation but the removal of
a temporary file, a run that fails before it writes leaves every file alone. Once it writes, each template
stands for itself: whether its file is written, and what it then holds, is decided by the system as it was
before the run. -/

namespace DomTemplate
open Ascii DomTemplate.Path FileTree

namespace World
variable {w w' v : World}

/-- The system with one more message. -/
def say (w : World) (text : Bytes) : World := w.withErrors (w.errors ++ text)

theorem say_nil (w : World) : w.say [] = w := by
  rw [say, List.append_nil]
  rfl

/-- Neither a regular file nor the output differs. -/
def Spares (w w' : World) : Prop := w'.output = w.output ∧ ∀ q, w'.file? q = w.file? q

theorem spares_say (w : World) (text : Bytes) : w.Spares (w.say text) := ⟨rfl, fun _ => rfl⟩

theorem look_error {α : Type} {op : FileOp} {path : Bytes} {result : FileTree → Except FileCause α}
    {e : FileError} (h : w.look op path result = .error e) : e.paths = [path] := by
  rw [look] at h
  cases refused : w.refuses op path with
  | some cause =>
    rw [refused] at h
    cases h
    rfl
  | none =>
    rw [refused] at h
    cases found : result w.files with
    | ok a =>
      rw [found] at h
      cases h
    | error cause =>
      rw [found] at h
      cases h
      rfl

/-- A file that cannot be read is named. -/
theorem readFile_error {path : Bytes} {e : FileError} (h : w.readFile path = .error e) : e.paths = [path] := by
  rw [readFile] at h
  cases opened : w.look .openFile path fun t => t.entry path with
  | error e' =>
    rw [opened] at h
    cases h
    exact look_error opened
  | ok entry =>
    rw [opened] at h
    cases entry with
    | file content =>
      have read : (w.look .read path fun _ => .ok content) = .error e := h
      exact look_error read
    | folder inner =>
      have read : (w.look .read path fun _ => (.error .isDirectory : Except FileCause Bytes)) = .error e := h
      exact look_error read

/-- The system if it refused nothing. -/
def free (w : World) : World := { w with refuses := fun _ _ => none }

theorem templates_free {p : Pattern} {ts : List Bytes} (h : ((p.templates : InMemory _) w).1 = .ok ts) :
    ((p.templates : InMemory _) w.free).1 = .ok ts := by
  obtain ⟨e, entry, selected⟩ := Pattern.select_of_templates h
  have free : ((p.templates : InMemory _) w.free).1 = p.select e :=
    Pattern.templates_free (fun _ _ => rfl) entry
  exact free.trans selected

theorem templatesOf_free {ps : List Pattern} {ts : List Bytes}
    (h : ((Pattern.templatesOf ps : InMemory _) w).1 = .ok ts) :
    ((Pattern.templatesOf ps : InMemory _) w.free).1 = .ok ts := by
  induction ps generalizing ts with
  | nil => exact h
  | cons p ps ih =>
    obtain ⟨first, rest, here, later, rfl⟩ := Pattern.templatesOf_cons.mp h
    exact Pattern.templatesOf_cons.mpr ⟨first, rest, templates_free here, ih later, rfl⟩

/-- What is found is a template, whatever the system refuses. -/
theorem findTemplates_isFound (numbered : w.Numbered) {dir : Bytes} {patterns ts : List Bytes}
    (rooted : isAbsolute dir = true) (found : ((findTemplates dir patterns : InMemory _) w).1 = .ok ts) :
    ∀ t ∈ ts, IsFound t := by
  obtain ⟨all, listed, same⟩ := findTemplates_ok.mp found
  have plain : w.free.Plain := ⟨fun _ _ => rfl, numbered.whole⟩
  exact (findTemplates_found plain rooted (findTemplates_ok.mpr ⟨all, templatesOf_free listed, same⟩)).2

end World

theorem mute_templatesOf (ps : List Pattern) : Mute (Pattern.templatesOf ps) := by
  induction ps with
  | nil => exact mute_pure _
  | cons p ps ih =>
    have first : Mute (p.templates) := by
      cases p with
      | tree path =>
        refine Mute.bind (fun _ _ => rfl) fun found => ?_
        cases found <;> exact mute_pure _
      | place path =>
        refine Mute.bind (fun _ _ => rfl) fun kind => ?_
        rcases kind with e | _ | _
        · exact mute_pure _
        · exact mute_pure _
        · refine Mute.bind (fun _ _ => rfl) fun found => ?_
          cases found <;> exact mute_pure _
    refine first.bind fun found => ?_
    cases found with
    | error e => exact mute_pure _
    | ok paths => exact ih.bind fun _ => mute_pure _

theorem mute_findTemplates (dir : Bytes) (patterns : List Bytes) : Mute (findTemplates dir patterns) :=
  (mute_templatesOf _).bind fun _ => mute_pure _

section Building
variable {p : Pipeline} {emit : Emit}

theorem logWhen_say (logging : Bool) (entry : LogEntry) (w : World) :
    ∃ log, (logWhen logging entry : InMemory Unit) w = ((), w.say log) ∧ (logging = false → log = []) := by
  cases logging with
  | false => exact ⟨[], congrArg ((), ·) (World.say_nil w).symm, fun _ => rfl⟩
  | true => exact ⟨entry.line, rfl, nofun⟩

theorem buildReporting_say {path src : Bytes} {built : Built} (made : p.file path src emit = .ok built)
    (logging : Bool) (shown : Bytes) (w : World) :
    ∃ log, (buildReporting p emit logging path shown src : Program _).run w =
      (.ok (some built.content), w.say log) ∧ (logging = false → log = []) := by
  obtain ⟨log, logged, quiet⟩ := logWhen_say (logging && emit == .code)
    (.about .debug (utf8 "built template") path
      [(utf8 "elements", .number built.elements), (utf8 "bytes", .number built.content.length)]) w
  refine ⟨log, ?_, fun silent => quiet (by rw [silent]; rfl)⟩
  simp only [buildReporting, made]
  rw [run_lift_bind, logged]
  rfl

/-- A template that does not name the characters of marks, and is a text in memory, whose length has a
signed 64-bit form. -/
def World.Unmarked (w : World) (p : Pipeline) (t : Bytes) : Prop :=
  ∀ src, w.readFile t = .ok src → src.length < Bytes.signedLimit ∧ p.delimiters.namesMark src = false

theorem Pipeline.refused_of_file {path src : Bytes} {f : Failure} (small : src.length < Bytes.signedLimit)
    (unmarked : p.delimiters.namesMark src = false) (failed : p.file path src emit = .error f) :
    ∃ e, f = .refused e := by
  rcases Pipeline.intents_failure small (Pipeline.intents_of_file failed) with located | ⟨marked, -⟩
  · obtain ⟨e, same, -⟩ := located
    exact ⟨e, same⟩
  · rw [unmarked] at marked
    cases marked

end Building

section Twins
variable {w v : World} {place : List Bytes} {base : Bytes}

theorem Folder.Gains.folder {d d' : Folder} (h : d.Gains d') {q : List Bytes} :
    d'.at? q = some none ↔ d.at? q = some none := by
  induction h with
  | refl => rfl
  | put content before output parent free ih => rw [at?_put_folder parent free, ih]

/-- A temporary file does not have the name of a generated one. -/
theorem not_isOutputAt_temporary {n : Bytes} (digits : n.all isDigit = true) (place : List Bytes) :
    ¬IsOutputAt place (World.temporaryStem base ++ n) := by
  intro output
  obtain ⟨e, mem, front, same⟩ := output.ending
  have ends : ∀ e ∈ outputExtensions, ∃ c, e.getLast? = some c ∧ isDigit c = false ∧ c ≠ dot := by
    decide +kernel
  obtain ⟨c, last, letter, other⟩ := ends e mem
  obtain ⟨short, rfl⟩ := List.getLast?_eq_some_iff.mp last
  rw [← List.append_assoc, World.temporaryStem] at same
  rcases List.eq_nil_or_concat n with rfl | ⟨m, d, rfl⟩
  · rw [List.append_nil] at same
    exact other (List.singleton_inj.mp (List.append_inj' same rfl).2)
  · rw [List.concat_eq_append, ← List.append_assoc] at same
    have digit : isDigit d = true := by simpa using (List.all_eq_true.mp digits) d (by simp)
    rw [← List.singleton_inj.mp (List.append_inj' same rfl).2, letter] at digit
    cases digit

theorem World.Gains.twin (h : w.Gains v) (numbered : w.Numbered)
    (folder : w.files.root.at? place = some none) : v.Twin w place base where
  refuses := h.refuses
  numbers := h.numbers
  folder := h.root.folder.mpr folder
  folder' := folder
  temporaries n mem := h.root.at?_eq place fun _ => not_isOutputAt_temporary (numbered n mem) _
  goal := h.root.folder

theorem World.Gains.readFile_iff {name content : Bytes} (h : w.Gains v) (template : IsTemplateAt place name) :
    v.readFile (ofNames true (place ++ [name])) = .ok content ↔
      w.readFile (ofNames true (place ++ [name])) = .ok content := by
  rw [readFile_place template.isPlace, readFile_place template.isPlace, h.refuses,
    h.root.at?_eq place fun _ output => output.not_template template.ending]

end Twins

namespace Command
variable {w v : World} {p : Pipeline} {emit : Emit} {logging : Bool} {dir t : Bytes}

/-- A system in the course of a run that started from `w`: files that differ can be replaced, and could
be before the run. -/
structure Course (w v : World) : Prop where
  gains : w.Gains v
  output : v.output = w.output
  settled : ∀ q, v.files.root.at? q = w.files.root.at? q ∨
    ∀ content, ((replaceFile (ofNames true q) content : InMemory _) w).1 = .ok ()

theorem Course.say (h : Course w v) (text : Bytes) : Course w (v.say text) :=
  ⟨⟨h.gains.refuses, h.gains.numbers, h.gains.current, h.gains.root⟩, h.output, h.settled⟩

theorem Course.tidy (h : Course w v) (tidy : w.Tidy) : v.Tidy where
  numbered := by
    rw [World.Numbered, h.gains.numbers]
    exact tidy.numbered
  removable := by
    rw [h.gains.refuses]
    exact tidy.removable

section Writing
variable {place : List Bytes} {base : Bytes} (course : Course w v) (output : IsOutputAt place base)
  {content : Bytes}
include course output

theorem Course.reads (same : v.files.root.at? (place ++ [base]) = w.files.root.at? (place ++ [base])) :
    v.readFile (ofNames true (place ++ [base])) = .ok content ↔
      w.readFile (ofNames true (place ++ [base])) = .ok content := by
  rw [World.readFile_place output.isPlace, World.readFile_place output.isPlace, course.gains.refuses, same]

variable (tidy : w.Tidy) (folder : w.files.root.at? place = some none) (fits : limits place = .ok place)
include tidy folder fits

theorem Course.replaced (free : v.files.root.at? (place ++ [base]) ≠ some none)
    (able : ((replaceFile (ofNames true (place ++ [base])) content : InMemory _) v).1 = .ok ()) :
    Course w (v.withFile (place ++ [base]) content) := by
  have twin : v.Twin w place base := course.gains.twin tidy.numbered folder
  refine ⟨course.gains.trans ⟨rfl, rfl, rfl, .put content .refl output twin.folder free⟩, course.output, fun q => ?_⟩
  by_cases here : q = place ++ [base]
  · refine .inr fun text => ?_
    rw [here, ← twin.replaceFile output.placed output.named tidy.numbered fits content text, able]
  · refine (course.settled q).imp_left fun same => ?_
    exact (Folder.at?_put_of_ne free here).trans same

/-- Writing a file goes as it would have gone at the start. -/
theorem Course.write (content : Bytes) :
    (∃ changed changed', (writeGenerated (ofNames true (place ++ [base])) content : InMemory _) v =
        (.ok changed, v.withFile (place ++ [base]) content) ∧
      ((writeGenerated (ofNames true (place ++ [base])) content : InMemory _) w).1 = .ok changed' ∧
      v.files.root.at? (place ++ [base]) ≠ some none ∧ Course w (v.withFile (place ++ [base]) content)) ∨
    ∃ e, (writeGenerated (ofNames true (place ++ [base])) content : InMemory _) v = (.error e, v) ∧
      ((writeGenerated (ofNames true (place ++ [base])) content : InMemory _) w).1 = .error e := by
  have twin : v.Twin w place base := course.gains.twin tidy.numbered folder
  have alike := twin.replaceFile output.placed output.named tidy.numbered fits content content
  by_cases here : v.readFile (ofNames true (place ++ [base])) = .ok content
  · have there := ((World.readFile_place output.isPlace).mp here).2.2.1
    have unchanged : v.withFile (place ++ [base]) content = v := by
      rw [World.withFile, Folder.put_self (Folder.at?_eq_file.mp there)]
      rfl
    rw [unchanged, World.writeGenerated_same here, there]
    refine .inl ⟨false, ?_⟩
    by_cases before : w.readFile (ofNames true (place ++ [base])) = .ok content
    · exact ⟨false, rfl, by rw [World.writeGenerated_same before], by simp, course⟩
    · -- the file was written in the course of the run, so it could be replaced at the start
      have able := (course.settled _).resolve_left fun same => before ((course.reads output same).mp here)
      exact ⟨true, rfl, by rw [World.writeGenerated_other before, able]; rfl, by simp, course⟩
  · rw [World.writeGenerated_other here]
    rcases World.replaceFile_next (course.tidy tidy) output.placed output.named twin.folder fits content with
      ⟨done, free⟩ | ⟨e, failed⟩
    · rw [done] at alike
      have answer : ∃ changed,
          ((writeGenerated (ofNames true (place ++ [base])) content : InMemory _) w).1 = .ok changed := by
        by_cases before : w.readFile (ofNames true (place ++ [base])) = .ok content
        · exact ⟨false, by rw [World.writeGenerated_same before]⟩
        · exact ⟨true, by rw [World.writeGenerated_other before, ← alike]; rfl⟩
      obtain ⟨changed, answer⟩ := answer
      rw [done]
      exact .inl ⟨true, changed, rfl, answer, free, course.replaced output tidy folder fits free (by rw [done])⟩
    · rw [failed] at alike
      have before : w.readFile (ofNames true (place ++ [base])) ≠ .ok content := by
        intro before
        rcases course.settled (place ++ [base]) with same | able
        · exact here ((course.reads output same).mpr before)
        · rw [able] at alike
          cases alike
      rw [failed, World.writeGenerated_other before, ← alike]
      exact .inr ⟨e, rfl, rfl⟩

end Writing

/-- The file that is written for a template, as the system `w` decides by itself. -/
def written? (w : World) (p : Pipeline) (emit : Emit) (t : Bytes) : Option Bytes :=
  match w.readFile t with
  | .error _ => none
  | .ok src =>
    match p.file t src emit with
    | .error _ => none
    | .ok built =>
      match ((writeGenerated (p.outPath t emit) built.content : InMemory _) w).1 with
      | .error _ => none
      | .ok _ => some built.content

/-- What the file at `q` holds after the file of a template was written or not. -/
def renewed (w : World) (p : Pipeline) (emit : Emit) (q : List Bytes) (old : Option Bytes) (t : Bytes) :
    Option Bytes :=
  if goal p emit t = q then (written? w p emit t).or old else old

/-- Why there is no file for a template. -/
inductive Complaint (w : World) (p : Pipeline) (emit : Emit) (dir t : Bytes) : Bytes → Prop
  | unread (e : FileError) (failed : ∀ src, w.readFile t ≠ .ok src) (named : e.paths = [t]) :
      Complaint w p emit dir t (utf8 "rerb: " ++ e.message ++ [lf])
  | unbuilt {src : Bytes} {e : TemplateError} (read : w.readFile t = .ok src)
      (refused : p.file t src emit = .error (.refused e)) :
      Complaint w p emit dir t ((Diagnostic.ofError e).render (displayPath dir t) src)
  | unwritten {src : Bytes} {built : Built} {e : FileError} (read : w.readFile t = .ok src)
      (made : p.file t src emit = .ok built)
      (failed : ((writeGenerated (p.outPath t emit) built.content : InMemory _) w).1 = .error e) :
      Complaint w p emit dir t (utf8 "rerb: " ++ e.message ++ [lf])

/-- What is said about a template: the log, if there is to be one, and then why there is no file. -/
inductive Reports (w : World) (p : Pipeline) (emit : Emit) (logging : Bool) (dir t : Bytes) : Bytes → Prop
  | written {content log : Bytes} (good : written? w p emit t = some content)
      (quiet : logging = false → log = []) : Reports w p emit logging dir t log
  | failed {message log : Bytes} (complaint : Complaint w p emit dir t message)
      (quiet : logging = false → log = []) : Reports w p emit logging dir t (log ++ message)

theorem Complaint.written? {message : Bytes} (h : Complaint w p emit dir t message) :
    written? w p emit t = none := by
  rw [Command.written?]
  cases h with
  | unread e failed named =>
    cases read : w.readFile t with
    | error e => rfl
    | ok src => exact absurd read (failed src)
  | unbuilt read refused => simp only [read, refused]
  | unwritten read made failed => simp only [read, made, failed]

/-- What one template does in the course of a run. -/
structure Step (w : World) (p : Pipeline) (emit : Emit) (logging : Bool) (dir t : Bytes) (v : World)
    (good : Bool) (v' : World) : Prop where
  good : good = (written? w p emit t).isSome
  course : Course w v'
  files : ∀ q, v'.file? q = renewed w p emit q (v.file? q) t
  said : ∃ report, v'.errors = v.errors ++ report ∧ Reports w p emit logging dir t report

theorem Step.failed {message log : Bytes} (course : Course w v) (complaint : Complaint w p emit dir t message)
    (quiet : logging = false → log = []) :
    Step w p emit logging dir t v false ((v.say log).say message) where
  good := by rw [complaint.written?]; rfl
  course := (course.say log).say message
  files q := by
    rw [renewed, complaint.written?, Option.none_or, ite_self]
    rfl
  said := ⟨log ++ message, List.append_assoc _ _ _, .failed complaint quiet⟩

section Generating
variable {place : List Bytes} {name src : Bytes} (template : IsTemplateAt place name) (course : Course w v)
include template course

theorem generate_unread {e : FileError} (failed : v.readFile (ofNames true (place ++ [name])) = .error e) :
    ∃ good v', (generate p emit logging dir (ofNames true (place ++ [name])) : Program _).run v =
      (.ok good, v') ∧ Step w p emit logging dir (ofNames true (place ++ [name])) v good v' := by
  have unread (src : Bytes) : w.readFile (ofNames true (place ++ [name])) ≠ .ok src := by
    intro read
    rw [(course.gains.readFile_iff template).mpr read] at failed
    cases failed
  refine ⟨false, _, ?_, .failed course (.unread e unread (World.readFile_error failed)) fun _ => rfl⟩
  rw [generate, run_lift_bind, readFile_apply, failed, World.say_nil]
  rfl

variable (read : v.readFile (ofNames true (place ++ [name])) = .ok src)
include read

theorem generate_unbuilt {e : TemplateError}
    (refused : p.file (ofNames true (place ++ [name])) src emit = .error (.refused e)) :
    ∃ good v', (generate p emit logging dir (ofNames true (place ++ [name])) : Program _).run v =
      (.ok good, v') ∧ Step w p emit logging dir (ofNames true (place ++ [name])) v good v' := by
  have before := (course.gains.readFile_iff template).mp read
  refine ⟨false, _, ?_, .failed course (.unbuilt before refused) fun _ => rfl⟩
  simp only [generate, run_lift_bind, readFile_apply, read, World.say_nil, buildReporting, refused]
  rfl

theorem generate_built (tidy : w.Tidy) {built : Built}
    (made : p.file (ofNames true (place ++ [name])) src emit = .ok built) :
    ∃ good v', (generate p emit logging dir (ofNames true (place ++ [name])) : Program _).run v =
      (.ok good, v') ∧ Step w p emit logging dir (ofNames true (place ++ [name])) v good v' := by
  obtain ⟨base, output, aim, goes⟩ := goal_output p emit template
  have before := (course.gains.readFile_iff template).mp read
  obtain ⟨-, -, there, short⟩ := (World.readFile_place template.isPlace).mp before
  have folder : w.files.root.at? place = some none :=
    Folder.at?_front (show w.files.root.at? (place ++ name :: []) ≠ none by rw [there]; simp)
  obtain ⟨log, reported, quiet⟩ :=
    buildReporting_say made logging (displayPath dir (ofNames true (place ++ [name]))) v
  have wrote := mute_writeGenerated (ofNames true (place ++ [base])) built.content v (v.errors ++ log)
  rw [← World.say] at wrote
  rcases course.write output tidy folder (limits_front short) built.content with
    ⟨changed, changed', done, able, free, next⟩ | ⟨e, failed, unable⟩
  · rw [done] at wrote
    obtain ⟨more, said, silent⟩ := logWhen_say (logging && changed) (.about .info (utf8 "wrote")
      (displayPath dir (ofNames true (place ++ [base]))) []) ((v.withFile (place ++ [base]) built.content).say log)
    have good : written? w p emit (ofNames true (place ++ [name])) = some built.content := by
      simp only [written?, before, made, goes, able]
    refine ⟨true, _, ?_, ?_, (next.say log).say more, ?_, log ++ more, List.append_assoc _ _ _, .written good ?_⟩
    · simp only [generate, run_lift_bind, readFile_apply, read, run_bind_ok reported, goes, wrote]
      have tail : (v.withFile (place ++ [base]) built.content).withErrors (v.errors ++ log) =
        (v.withFile (place ++ [base]) built.content).say log := rfl
      rw [tail, said]
      rfl
    · rw [good]
      rfl
    · intro q
      rw [renewed, aim, good, Option.some_or]
      refine (Folder.file?_put (course.gains.root.folder.mpr folder) free).trans ?_
      simp only [eq_comm]
      rfl
    · intro off
      rw [quiet off, silent (by rw [off]; rfl)]
      rfl
  · rw [failed] at wrote
    refine ⟨false, _, ?_, .failed course (.unwritten before made (goes ▸ unable)) quiet⟩
    simp only [generate, run_lift_bind, readFile_apply, read, run_bind_ok reported, goes, wrote]
    rfl

end Generating

theorem generate_runs (course : Course w v) (tidy : w.Tidy) (found : IsFound t) (unmarked : w.Unmarked p t) :
    ∃ good v', (generate p emit logging dir t : Program _).run v = (.ok good, v') ∧
      Step w p emit logging dir t v good v' := by
  obtain ⟨place, name, template, rfl⟩ := found
  cases read : v.readFile (ofNames true (place ++ [name])) with
  | error e => exact generate_unread template course read
  | ok src =>
    obtain ⟨small, plain⟩ := unmarked src ((course.gains.readFile_iff template).mp read)
    cases made : p.file (ofNames true (place ++ [name])) src emit with
    | error f =>
      obtain ⟨e, rfl⟩ := Pipeline.refused_of_file small plain made
      exact generate_unbuilt template course read made
    | ok built => exact generate_built template course read tidy made

theorem generateAll_runs {ts : List Bytes} (course : Course w v) (tidy : w.Tidy) (found : ∀ t ∈ ts, IsFound t)
    (unmarked : ∀ t ∈ ts, w.Unmarked p t) :
    ∃ v' reports, (generateAll p emit logging dir ts : Program _).run v =
        (.ok (ts.all fun t => (written? w p emit t).isSome), v') ∧
      Course w v' ∧ (∀ q, v'.file? q = ts.foldl (renewed w p emit q) (v.file? q)) ∧
      v'.errors = v.errors ++ reports.flatten ∧ List.Forall₂ (Reports w p emit logging dir) ts reports := by
  induction ts generalizing v with
  | nil => exact ⟨v, [], rfl, course, fun _ => rfl, (List.append_nil _).symm, .nil⟩
  | cons t ts ih =>
    rw [List.forall_mem_cons] at found unmarked
    obtain ⟨good, v₁, first, step⟩ : ∃ good v₁, (generate p emit logging dir t : Program _).run v =
      (.ok good, v₁) ∧ Step w p emit logging dir t v good v₁ := generate_runs course tidy found.1 unmarked.1
    obtain ⟨v', reports, later, course', files, errors, each⟩ := ih step.course found.2 unmarked.2
    obtain ⟨report, said, about⟩ := step.said
    refine ⟨v', report :: reports, ?_, course', fun q => ?_, ?_, .cons about each⟩
    · rw [generateAll, run_bind_ok first, run_bind_ok later, step.good]
      rfl
    · rw [files q, step.files q, List.foldl_cons]
    · rw [errors, said, List.flatten_cons, List.append_assoc]

section Planning
variable {o : Options} {args operands : List Bytes}

theorem load_say (path : Bytes) (w : World) : ((Config.load path : Program _).run w).2 = w := by
  rw [Config.load, run_lift_bind, readFile_apply]
  cases w.readFile path <;> rfl

/-- Finding the settings adds to the log at most. -/
theorem configure_say (o : Options) (dir : Bytes) (w : World) :
    ∃ r log, (configure o dir : Program _).run w = (r, w.say log) ∧ (o.debug = false → log = []) := by
  rw [configure_run]
  cases configPath? o dir w with
  | none => exact ⟨_, [], congrArg (_, ·) (World.say_nil w).symm, fun _ => rfl⟩
  | some path =>
    rw [Option.elim_some, loadWith]
    have unchanged := load_say path w
    cases loaded : (Config.load path : Program _).run w with
    | mk r v =>
      rw [loaded] at unchanged
      obtain rfl : v = w := unchanged
      cases r with
      | error crash =>
        refine ⟨.error crash, [], ?_, fun _ => rfl⟩
        rw [ExceptT.run_bind, bind_apply, loaded, World.say_nil]
        rfl
      | ok answer =>
        rw [run_bind_ok loaded]
        cases answer with
        | error e => exact ⟨_, [], congrArg (_, ·) (World.say_nil v).symm, fun _ => rfl⟩
        | ok c =>
          obtain ⟨log, logged, quiet⟩ := logWhen_say o.debug (.about .debug (utf8 "loaded config") path []) v
          refine ⟨.ok (.ok (o.override c)), log, ?_, quiet⟩
          dsimp only
          rw [run_lift_bind, logged]
          rfl

/-- What a run is to write, once everything before the first template went well. -/
structure Plan where
  emit : Emit
  pipeline : Pipeline
  logging : Bool
  templates : List Bytes

/-- The plan of a run that is asked to write. There is none if it is asked for anything else, if the
arguments or the settings are no good, or if a pattern stands for nothing. -/
def plan? (args : List Bytes) (w : World) : Option Plan :=
  match Arguments.parse {} args with
  | .run o operands =>
    match task o operands with
    | .ok (emit, .writeAll operands) =>
      match ((configure o (ofNames true w.files.current) : Program _).run w).1 with
      | .ok (.ok c) =>
        match Pipeline.ofConfig c,
          ((findTemplates (ofNames true w.files.current) (patterns operands) : InMemory _) w).1 with
        | .ok p, .ok ts => some ⟨emit, p, o.debug, ts⟩
        | _, _ => none
      | _ => none
    | _ => none
  | _ => none

/-- A failure before anything is written. -/
def Harmless (w : World) (outcome : Except Crash Bool × World) : Prop :=
  outcome.1 ≠ .ok true ∧ w.Spares outcome.2

theorem harmless_problem (message : Bytes) (w : World) :
    Harmless w ((liftM (problem message : InMemory Bool) : Program Bool).run w) :=
  ⟨nofun, w.spares_say _⟩

/-- What a task does, once the settings are known. -/
def Task.carryOut (p : Pipeline) (emit : Emit) (o : Options) (dir : Bytes) : Task → Program Bool
  | .writeAll patterns => Command.writeAll p emit o.debug dir patterns
  | .compile template => Command.compile p emit o template

theorem perform_cases (o : Options) (emit : Emit) (task : Task) (w : World) :
    Harmless w ((perform o emit task : Program _).run w) ∨
    ∃ c p log, Pipeline.ofConfig c = .ok p ∧ (o.debug = false → log = []) ∧
      (configure o (ofNames true w.files.current) : Program _).run w = (.ok (.ok c), w.say log) ∧
      (perform o emit task : Program _).run w =
        (task.carryOut p emit o (ofNames true w.files.current)).run (w.say log) := by
  obtain ⟨r, log, configured, quiet⟩ := configure_say o (ofNames true w.files.current) w
  rw [perform, run_lift_bind, currentDirectory_apply, configured]
  cases r with
  | error crash =>
    left
    rw [ExceptT.run_bind, bind_apply, configured]
    exact ⟨by simp [pure_apply], w.spares_say log⟩
  | ok answer =>
    rw [run_bind_ok configured]
    cases answer with
    | error e => exact .inl (harmless_problem e.message (w.say log))
    | ok c =>
      cases piped : Pipeline.ofConfig c with
      | error e =>
        left
        simp only [piped]
        exact harmless_problem e.message (w.say log)
      | ok p =>
        refine .inr ⟨c, p, log, piped, quiet, rfl, ?_⟩
        simp only [piped]
        cases task <;> rfl

theorem buildReporting_cases (p : Pipeline) (emit : Emit) (logging : Bool) (path shown src : Bytes) (w : World) :
    (∃ crash, (buildReporting p emit logging path shown src : Program _).run w = (.error crash, w)) ∨
    ∃ answer text, (buildReporting p emit logging path shown src : Program _).run w =
      (.ok answer, w.say text) := by
  cases made : p.file path src emit with
  | ok built =>
    obtain ⟨log, reported, -⟩ := buildReporting_say made logging shown w
    exact .inr ⟨_, log, reported⟩
  | error f =>
    simp only [buildReporting, made]
    cases f with
    | crashed crash => exact .inl ⟨crash, rfl⟩
    | refused e => exact .inr ⟨none, _, rfl⟩

/-- Compiling one template goes well, or no file has changed. -/
theorem compile_spares (tidy : w.Tidy) (template : Bytes) :
    ((compile p emit o template : Program _).run w).1 = .ok true ∨
      w.Spares ((compile p emit o template : Program _).run w).2 := by
  have unchanged : ((readTemplate template : InMemory _) w).2 = w := by
    rw [readTemplate]
    split_ifs <;> rfl
  rw [compile, run_lift_bind, unchanged]
  cases ((readTemplate template : InMemory _) w).1 with
  | error e => exact .inr (w.spares_say _)
  | ok source =>
    obtain ⟨path, src⟩ := source
    dsimp only
    rcases buildReporting_cases p emit o.debug path path src w with ⟨crash, failed⟩ | ⟨answer, text, reported⟩
    · rw [ExceptT.run_bind, bind_apply, failed]
      exact .inr ⟨rfl, fun _ => rfl⟩
    · rw [run_bind_ok reported]
      cases answer with
      | none => exact .inr (w.spares_say text)
      | some content =>
        dsimp only
        split_ifs with toOutput
        · exact .inl rfl
        · rw [run_lift_bind]
          cases wrote : ((writeGenerated o.out content : InMemory _) (w.say text)).1 with
          | ok changed => exact .inl rfl
          | error e =>
            have numbered : (w.say text).Numbered := tidy.numbered
            obtain ⟨d, root, -, files⟩ := World.writeGenerated_failed numbered wrote
            rw [root]
            exact .inr ⟨rfl, files fun path _ => tidy.removable path⟩

theorem writeAll_unfound {e : DiscoveryError} {log : Bytes} (logging : Bool)
    (failed : ((findTemplates dir (patterns operands) : InMemory _) w).1 = .error e) :
    Harmless w ((writeAll p emit logging dir operands : Program _).run (w.say log)) := by
  have quiet := mute_findTemplates dir (patterns operands) w (w.errors ++ log)
  rw [← World.say, findTemplates_world, failed] at quiet
  rw [writeAll, run_lift_bind, ← patterns, quiet]
  exact harmless_problem e.message (w.say log)

theorem plan?_write (asked : Arguments.parse {} args = .run o operands)
    (task : task o operands = .ok (emit, .writeAll operands)) {c : Config} {log : Bytes} {ts : List Bytes}
    (configured : (configure o (ofNames true w.files.current) : Program _).run w = (.ok (.ok c), w.say log))
    (piped : Pipeline.ofConfig c = .ok p)
    (found : ((findTemplates (ofNames true w.files.current) (patterns operands) : InMemory _) w).1 = .ok ts) :
    plan? args w = some ⟨emit, p, o.debug, ts⟩ := by
  simp only [plan?, asked, task, configured, piped, found]

theorem task_write {task' : Task} (h : task o operands = .ok (emit, task')) :
    task' = .writeAll operands ∧ o.write = true ∨ (∃ template, task' = .compile template) ∧ o.write = false := by
  rw [task] at h
  cases named : Emit.named o.emit with
  | error name =>
    rw [named] at h
    cases h
  | ok emit' =>
    rw [named] at h
    dsimp only at h
    split_ifs at h with write out
    · cases h
      exact .inl ⟨rfl, write⟩
    · rw [Bool.not_eq_true] at write
      rcases operands with _ | ⟨template, _ | ⟨second, rest⟩⟩
      · cases h
      · cases h
        exact .inr ⟨⟨template, rfl⟩, write⟩
      · cases h

theorem run_perform (asked : Arguments.parse {} args = .run o operands) {task' : Task}
    (task : task o operands = .ok (emit, task')) : (run args : Program _).run w =
      ((perform o emit task' : Program _).run w).map (Except.map fun good => if good then 0 else 1) id := by
  simp only [run, asked, task]
  rw [ExceptT.run_bind, bind_apply]
  cases (perform o emit task' : Program _).run w with
  | mk r v =>
    cases r with
    | error crash => rfl
    | ok good => cases good <;> rfl

theorem run_harmless (asked : Arguments.parse {} args = .run o operands) {job : Task}
    (chosen : task o operands = .ok (emit, job)) (h : Harmless w ((perform o emit job : Program _).run w)) :
    ((run args : Program _).run w).1 ≠ .ok 0 ∧ w.Spares ((run args : Program _).run w).2 := by
  rw [run_perform asked chosen]
  obtain ⟨failed, spares⟩ := h
  generalize (perform o emit job : Program _).run w = outcome at failed spares ⊢
  obtain ⟨r, v⟩ := outcome
  refine ⟨?_, spares⟩
  cases r with
  | error crash => exact nofun
  | ok good =>
    cases good with
    | true => exact absurd rfl failed
    | false => exact nofun

/-- Without a plan, a run that does not succeed changes no file, and one that is asked to write does not
succeed. -/
theorem run_unplanned (tidy : w.Tidy) (unplanned : plan? args w = none) :
    (((run args : Program _).run w).1 ≠ .ok 0 → w.Spares ((run args : Program _).run w).2) ∧
    ∀ o operands, Arguments.parse {} args = .run o operands → o.write = true →
      ((run args : Program _).run w).1 ≠ .ok 0 := by
  have said {status : Nat} {text : Bytes} (ran : (run args : Program _).run w = (.ok status, w.say text)) :
      w.Spares ((run args : Program _).run w).2 := by
    rw [ran]
    exact w.spares_say text
  cases asked : Arguments.parse {} args with
  | help =>
    have ran : (run args : Program _).run w = (.ok 0, w.say usage) := by
      simp only [run, asked]
      rfl
    refine ⟨fun _ => said ran, ?_⟩
    rintro _ _ ⟨⟩
  | bad e =>
    have ran : (run args : Program _).run w = (.ok 2, w.say (e.message ++ [lf] ++ usage)) := by
      simp only [run, asked]
      rfl
    refine ⟨fun _ => said ran, ?_⟩
    rintro _ _ ⟨⟩
  | run o operands =>
    cases chosen : task o operands with
    | error e =>
      have ran : (run args : Program _).run w =
          (.ok 2, w.say (utf8 "rerb: " ++ e.message ++ [lf] ++ usage)) := by
        simp only [run, asked, chosen]
        rfl
      refine ⟨fun _ => said ran, fun _ _ _ _ => ?_⟩
      rw [ran]
      simp
    | ok choice =>
      obtain ⟨emit, job⟩ := choice
      rcases perform_cases o emit job w with failed | ⟨c, p, log, piped, -, configured, performed⟩
      · obtain ⟨failed, spares⟩ := run_harmless asked chosen failed
        exact ⟨fun _ => spares, fun _ _ _ _ => failed⟩
      -- a task that writes has found no templates, or there would be a plan
      rcases task_write chosen with ⟨rfl, -⟩ | ⟨⟨template, rfl⟩, unwritten⟩
      · cases found : ((findTemplates (ofNames true w.files.current) (patterns operands) : InMemory _) w).1 with
        | ok ts =>
          rw [plan?_write asked chosen configured piped found] at unplanned
          cases unplanned
        | error e =>
          have harmless : Harmless w ((perform o emit (.writeAll operands) : Program _).run w) := by
            rw [performed]
            exact writeAll_unfound o.debug found
          obtain ⟨failed, spares⟩ := run_harmless asked chosen harmless
          exact ⟨fun _ => spares, fun _ _ _ _ => failed⟩
      · have tidy : (w.say log).Tidy := ⟨tidy.numbered, tidy.removable⟩
        refine ⟨fun failed => ?_, ?_⟩
        · rw [run_perform asked chosen, performed, Task.carryOut] at failed ⊢
          refine (compile_spares tidy template).resolve_left fun done => failed ?_
          rw [Prod.map_fst, done]
          rfl
        · rintro o' operands' ⟨⟩ write
          rw [unwritten] at write
          cases write

theorem of_plan? {plan : Plan} (h : plan? args w = some plan) :
    ∃ o operands c, Arguments.parse {} args = .run o operands ∧
      task o operands = .ok (plan.emit, .writeAll operands) ∧ o.debug = plan.logging ∧
      ((configure o (ofNames true w.files.current) : Program _).run w).1 = .ok (.ok c) ∧
      Pipeline.ofConfig c = .ok plan.pipeline ∧
      ((findTemplates (ofNames true w.files.current) (patterns operands) : InMemory _) w).1 =
        .ok plan.templates := by
  unfold plan? at h
  split at h
  · rename_i o operands asked
    split at h
    · rename_i emit operands' chosen
      split at h
      · rename_i c configured
        split at h
        · rename_i p ts piped found
          cases h
          rcases task_write chosen with ⟨same, -⟩ | ⟨⟨template, same⟩, -⟩ <;> cases same
          exact ⟨o, operands, c, asked, chosen, rfl, configured, piped, found⟩
        · cases h
      · cases h
    · cases h
  · cases h

theorem produces_of_written? {content : Bytes} (h : written? w p emit t = some content) :
    w.Produces p emit t content := by
  rw [written?] at h
  split at h
  · cases h
  rename_i src read
  split at h
  · cases h
  rename_i built made
  split at h
  · cases h
  · cases h
    exact ⟨src, built, read, made, rfl⟩

theorem foldl_renewed (ts : List Bytes) (q : List Bytes) (old : Option Bytes) :
    ts.foldl (renewed w p emit q) old = old ∨ ∃ t ∈ ts, goal p emit t = q ∧ ∃ content,
      written? w p emit t = some content ∧ ts.foldl (renewed w p emit q) old = some content := by
  induction ts generalizing old with
  | nil => exact .inl rfl
  | cons t ts ih =>
    rw [List.foldl_cons]
    rcases ih (renewed w p emit q old t) with same | ⟨t', mem, aim, content, good, last⟩
    · rw [same, renewed]
      split_ifs with here
      · cases good : written? w p emit t with
        | none => exact .inl rfl
        | some content => exact .inr ⟨t, List.mem_cons_self, here, content, good, rfl⟩
      · exact .inl rfl
    · exact .inr ⟨t', List.mem_cons_of_mem _ mem, aim, content, good, last⟩

/-- What becomes of a run with a plan. -/
structure Carried (plan : Plan) (w w' : World) (status : Except Crash Nat) : Prop where
  /-- The run succeeds if there is a file for each template. -/
  status : status =
    .ok (if plan.templates.all fun t => (written? w plan.pipeline plan.emit t).isSome then 0 else 1)
  output : w'.output = w.output
  /-- The last template with a file for a place decides what is there. -/
  files : ∀ q, w'.file? q = plan.templates.foldl (renewed w plan.pipeline plan.emit q) (w.file? q)
  /-- A file that differs is the one of a template that was read and built. -/
  changed : ∀ q, w'.file? q ≠ w.file? q → ∃ t ∈ plan.templates, goal plan.pipeline plan.emit t = q ∧
    ∃ content, w.Produces plan.pipeline plan.emit t content ∧ w'.file? q = some content
  /-- Every template without a file is complained about. -/
  messages : ∃ log reports, w'.errors = w.errors ++ log ++ reports.flatten ∧
    (plan.logging = false → log = []) ∧
    List.Forall₂ (Reports w plan.pipeline plan.emit plan.logging (ofNames true w.files.current))
      plan.templates reports

theorem run_planned (tidy : w.Tidy) {plan : Plan} (planned : plan? args w = some plan)
    (unmarked : ∀ t ∈ plan.templates, w.Unmarked plan.pipeline t) :
    Carried plan w ((run args : Program _).run w).2 ((run args : Program _).run w).1 := by
  obtain ⟨o, operands, c, asked, chosen, debug, configured, piped, found⟩ := of_plan? planned
  obtain ⟨r, log, settled, quiet⟩ := configure_say o (ofNames true w.files.current) w
  rw [settled] at configured
  obtain rfl : r = .ok (.ok c) := configured
  have templates := World.findTemplates_isFound tidy.numbered rfl found
  have start : Course w (w.say log) := Course.say ⟨⟨rfl, rfl, rfl, .refl⟩, rfl, fun _ => .inl rfl⟩ log
  have found' := mute_findTemplates (ofNames true w.files.current) (patterns operands) w (w.errors ++ log)
  rw [found] at found'
  obtain ⟨w', reports, ran, course, files, errors, each⟩ : ∃ w' reports,
      (generateAll plan.pipeline plan.emit plan.logging (ofNames true w.files.current) plan.templates :
        Program _).run (w.say log) = _ ∧ _ := generateAll_runs start tidy templates unmarked
  rw [← debug] at ran each
  rw [run_write asked chosen settled piped (congrArg Prod.fst found') ran]
  refine ⟨rfl, course.output, files, fun q differs => ?_, log, reports, errors, debug ▸ quiet, debug ▸ each⟩
  rcases foldl_renewed plan.templates q (w.file? q) with same | ⟨t, mem, aim, content, good, last⟩
  · exact absurd ((files q).trans same) differs
  · exact ⟨t, mem, aim, content, produces_of_written? good, (files q).trans last⟩

/-- A run leaves no partial output, and its failures are isolated. A run without a plan changes no file and
writes no output unless it succeeds, which one that is asked to write does not. A run with a plan, whose
templates do not name the characters of marks, succeeds exactly if there is a file for every template, as
the system decides for each template by itself. It complains about each of the others, and the only files
that differ are those of templates that have one. -/
theorem failures_apart (tidy : w.Tidy) (args : List Bytes) :
    (plan? args w = none →
      (((run args : Program _).run w).1 ≠ .ok 0 → w.Spares ((run args : Program _).run w).2) ∧
      ∀ o operands, Arguments.parse {} args = .run o operands → o.write = true →
        ((run args : Program _).run w).1 ≠ .ok 0) ∧
    ∀ plan, plan? args w = some plan → (∀ t ∈ plan.templates, w.Unmarked plan.pipeline t) →
      Carried plan w ((run args : Program _).run w).2 ((run args : Program _).run w).1 :=
  ⟨run_unplanned tidy, fun _ => run_planned tidy⟩

end Planning

/-- Four templates. One is broken, there is a folder in the place of the file for another, and a third one
must not be read. -/
def mixed : World where
  files := ⟨.file (utf8 "a.erb") (utf8 "<p>") (.file (utf8 "b.erb") (utf8 "b") (.file (utf8 "c.erb") (utf8 "c")
    (.folder (utf8 "c.ir") .empty (.file (utf8 "d.erb") (utf8 "d") .empty)))), []⟩
  refuses op path :=
    if op = .openFile && path = utf8 "/d.erb" then some (.other (utf8 "permission denied")) else none

def mixedPlan : Plan :=
  ⟨.intents, defaultPipeline, false, [utf8 "/a.erb", utf8 "/b.erb", utf8 "/c.erb", utf8 "/d.erb"]⟩

theorem failures_apart_mixed :
    mixed.Tidy ∧ plan? dumpArgs mixed = some mixedPlan ∧
    (∀ t ∈ mixedPlan.templates, mixed.Unmarked mixedPlan.pipeline t) ∧
    Carried mixedPlan mixed ((run dumpArgs : Program _).run mixed).2 ((run dumpArgs : Program _).run mixed).1 ∧
    ((run dumpArgs : Program _).run mixed).1 = .ok 1 := by
  have tidy : mixed.Tidy := ⟨by unfold World.Numbered; decide +kernel, fun _ => rfl⟩
  have asked : Arguments.parse {} dumpArgs = .run { emit := utf8 "ir", write := true } [] := by
    decide +kernel
  have configured : ((configure { emit := utf8 "ir", write := true } (ofNames true mixed.files.current) :
      Program _).run mixed).1 = .ok (.ok {}) := by decide +kernel
  have found : ((findTemplates (ofNames true mixed.files.current) (patterns []) : InMemory _) mixed).1 =
      .ok mixedPlan.templates := by decide +kernel
  have planned : plan? dumpArgs mixed = some mixedPlan := by
    have chosen : task { emit := utf8 "ir", write := true } [] = .ok (.intents, .writeAll []) := rfl
    have piped : Pipeline.ofConfig {} = .ok defaultPipeline := rfl
    simp only [plan?, asked, chosen, configured, piped, found]
    rfl
  have unmarked : ∀ t ∈ mixedPlan.templates, mixed.Unmarked mixedPlan.pipeline t := by
    have each : ∀ t ∈ mixedPlan.templates, ∀ src ∈ (mixed.readFile t).toOption,
        src.length < Bytes.signedLimit ∧ mixedPlan.pipeline.delimiters.namesMark src = false := by
      decide +kernel
    intro t mem src read
    exact each t mem src (by rw [read]; rfl)
  exact ⟨tidy, planned, unmarked, (failures_apart tidy dumpArgs).2 mixedPlan planned unmarked, by decide +kernel⟩

end Command

end DomTemplate
