import DomTemplate.Proofs.Isolation
import DomTemplate.Watch

/-! Watching a template. However the template changes between polls, the output is the page of the last
content that could be built and written, and a poll that reads what was read last does nothing. What was
read is remembered before it is written, so a page that could not be written is not written later unless
the template changes. -/

namespace DomTemplate
open Ascii DomTemplate.Path FileTree

namespace Watcher
variable {w : Watcher} {logging : Bool} {found : World} {earlier polls : List World} {src : Bytes}

/-- The watcher after polls, of which the last is given first, each by the system that it found. -/
def after (w : Watcher) (logging : Bool) : List World → Watcher
  | [] => w
  | found :: earlier => (((after w logging earlier).poll logging : InMemory _) found).1.1

/-- The system that a poll left. -/
def left (w : Watcher) (logging : Bool) (found : World) (earlier : List World) : World :=
  (((w.after logging earlier).poll logging : InMemory _) found).2

/-- What the last of the polls that could read the template read. -/
def lastRead (w : Watcher) : List World → Option Bytes
  | [] => none
  | found :: earlier =>
    match found.readFile w.path with
    | .ok src => some src
    | .error _ => lastRead w earlier

/-- The page of the content `src`, if it can be built and if the system takes it. -/
def made? (w : Watcher) (found : World) (src : Bytes) : Option Bytes :=
  match w.pipeline.file w.path src .code with
  | .error _ => none
  | .ok built =>
    match ((writeGenerated w.out built.content : InMemory _) found).1 with
    | .error _ => none
    | .ok _ => some built.content

/-- The page that a poll writes, which is that of a content other than what was read last. -/
def renewal? (w : Watcher) (earlier : List World) (found : World) : Option Bytes :=
  match found.readFile w.path with
  | .error _ => none
  | .ok src => if w.lastRead earlier = some src then none else w.made? found src

/-- The last page that was written. -/
def page? (w : Watcher) : List World → Option Bytes
  | [] => none
  | found :: earlier => (w.renewal? earlier found).or (page? w earlier)

/-- Nobody but the watcher writes to a place between the polls. -/
def Undisturbed (w : Watcher) (logging : Bool) (place : List Bytes) : List World → Prop
  | [] => True
  | found :: earlier =>
    (∀ previous before, earlier = previous :: before →
      found.file? place = (w.left logging previous before).file? place) ∧
    Undisturbed w logging place earlier

/-- What a poll may find. -/
structure Finds (w : Watcher) (here : List Bytes) (found : World) : Prop where
  numbered : found.Numbered
  current : found.files.current = here
  unmarked : found.Unmarked w.pipeline w.path

/-- A watcher starts out with nothing read. -/
theorem last_of_start {path out : Bytes} {v : World}
    (started : ((start path out : Program _).run v).1 = .ok (.ok w)) : w.last = none := by
  obtain ⟨answer, v', -, rest⟩ := of_run_bind (Prod.ext started rfl)
  cases answer with
  | error e => cases rest
  | ok c =>
    cases piped : Pipeline.ofConfig c with
    | error e =>
      simp only [piped] at rest
      cases rest
    | ok p =>
      simp only [piped] at rest
      cases rest
      rfl

theorem start_ok {path out : Bytes} {v : World} {c : Config} {p : Pipeline}
    (configured : ((configFor (dir path) : Program _).run v).1 = .ok (.ok c))
    (piped : Pipeline.ofConfig c = .ok p) (named : out ≠ []) :
    ((start path out : Program _).run v).1 = .ok (.ok { path, out, pipeline := p }) := by
  have found : (configFor (dir path) : Program _).run v =
    (.ok (.ok c), ((configFor (dir path) : Program _).run v).2) := Prod.ext configured rfl
  rw [start, run_bind_ok found]
  simp only [piped]
  rw [if_neg (mt List.isEmpty_iff.mp named)]
  rfl

theorem after_eq (fresh : w.last = none) (polls : List World) :
    w.after logging polls = { w with last := w.lastRead polls } := by
  induction polls with
  | nil =>
    rw [after, lastRead, ← fresh]
  | cons found earlier ih =>
    rw [after, ih, poll, bind_apply, readFile_apply, lastRead]
    cases found.readFile w.path with
    | error e => rfl
    | ok src =>
      dsimp only
      split_ifs with same
      · rw [same]
        rfl
      · rfl

/-- Making the page again ends well, and changes the output by a page that is built and written. -/
theorem regenerate_file (numbered : found.Numbered) (small : src.length < Bytes.signedLimit)
    (plain : w.pipeline.delimiters.namesMark src = false) :
    ((w.regenerate logging src : Program _).run found).1 = .ok () ∧
      ((w.regenerate logging src : Program _).run found).2.file? (aim found.files.current w.out) =
        (w.made? found src).or (found.file? (aim found.files.current w.out)) := by
  rw [regenerate, made?]
  cases made : w.pipeline.file w.path src .code with
  | error f =>
    obtain ⟨e, rfl⟩ := Pipeline.refused_of_file small plain made
    simp only [buildReporting, made]
    exact ⟨rfl, rfl⟩
  | ok built =>
    obtain ⟨log, reported, -⟩ := buildReporting_say made logging w.path found
    have wrote := mute_writeGenerated w.out built.content found (found.errors ++ log)
    rw [← World.say] at wrote
    rw [run_bind_ok reported]
    dsimp only
    rw [run_lift_bind, wrote]
    cases answer : ((writeGenerated w.out built.content : InMemory _) found).1 with
    | error e =>
      obtain ⟨d, root, kept, -⟩ := World.writeGenerated_failed numbered answer
      rw [root]
      exact ⟨rfl, kept⟩
    | ok changed =>
      obtain ⟨d, root, files⟩ := World.writeGenerated_done numbered answer
      obtain ⟨more, logged, -⟩ := logWhen_say logging (.about .info (utf8 "regenerated") w.out [])
        ((found.withRoot d).withErrors (found.errors ++ log))
      rw [root]
      dsimp only
      rw [run_lift, logged]
      exact ⟨rfl, (files _).trans (if_pos rfl)⟩

section Polling
variable (fresh : w.last = none)
include fresh

/-- A poll ends well, and changes the output by the page that it writes. -/
theorem poll_file {here : List Bytes} (finds : w.Finds here found) (earlier : List World) :
    (((w.after logging earlier).poll logging : InMemory _) found).1.2 = .ok () ∧
      (w.left logging found earlier).file? (aim here w.out) =
        (w.renewal? earlier found).or (found.file? (aim here w.out)) := by
  rw [left, after_eq fresh, poll, bind_apply, readFile_apply, renewal?]
  cases read : found.readFile w.path with
  | error e => exact ⟨rfl, rfl⟩
  | ok src =>
    dsimp only
    split_ifs with same
    · exact ⟨rfl, rfl⟩
    · obtain ⟨small, plain⟩ := finds.unmarked src read
      rw [← finds.current]
      exact regenerate_file (w := { w with last := w.lastRead earlier }) finds.numbered small plain

/-- A poll that reads what was read last leaves everything as it is. -/
theorem left_same (read : found.readFile w.path = .ok src) (same : w.lastRead earlier = some src) :
    w.left logging found earlier = found := by
  rw [left, after_eq fresh, poll, bind_apply, readFile_apply, read]
  dsimp only
  rw [if_pos same]
  rfl

theorem left_page {here : List Bytes} (finds : ∀ f ∈ found :: earlier, w.Finds here f)
    (undisturbed : w.Undisturbed logging (aim here w.out) (found :: earlier)) :
    (w.left logging found earlier).file? (aim here w.out) =
      (w.page? (found :: earlier)).or
        ((found :: earlier).getLast?.bind (·.file? (aim here w.out))) := by
  induction earlier generalizing found with
  | nil =>
    rw [(poll_file fresh (finds found List.mem_cons_self) []).2, page?, page?, Option.or_none]
    rfl
  | cons previous before ih =>
    -- what is found at the output is what the poll before has left there
    rw [List.forall_mem_cons] at finds
    rw [(poll_file fresh finds.1 (previous :: before)).2, undisturbed.1 previous before rfl,
      ih finds.2 undisturbed.2, ← Option.or_assoc, List.getLast?_cons_cons]
    rfl

end Polling

/-- What was read stays what was read last as long as nothing else is read. -/
theorem lastRead_between {failed : World} {between before : List World} (read : failed.readFile w.path = .ok src)
    (same : ∀ f ∈ between, ∀ text, f.readFile w.path = .ok text → text = src) :
    w.lastRead (between ++ failed :: before) = some src := by
  induction between with
  | nil => rw [List.nil_append, lastRead, read]
  | cons f between ih =>
    rw [List.forall_mem_cons] at same
    rw [List.cons_append, lastRead]
    cases found : f.readFile w.path with
    | ok text => rw [same.1 text found]
    | error e => exact ih same.2

/-- The watcher keeps the last good page. Whatever the template is at each poll, a poll ends well, and
then the output holds the page of the last content that could be built and written, or what it held
before the first poll. A poll that reads the same as the last one that could read changes nothing at all. -/
theorem output_is_last_page {path out : Bytes} {v : World}
    (started : ((start path out : Program _).run v).1 = .ok (.ok w)) {here : List Bytes}
    (finds : ∀ f ∈ found :: earlier, w.Finds here f)
    (undisturbed : w.Undisturbed logging (aim here w.out) (found :: earlier)) :
    (((w.after logging earlier).poll logging : InMemory _) found).1.2 = .ok () ∧
    (w.left logging found earlier).file? (aim here w.out) =
      (w.page? (found :: earlier)).or ((found :: earlier).getLast?.bind (·.file? (aim here w.out))) ∧
    ∀ src, found.readFile w.path = .ok src → w.lastRead earlier = some src →
      w.left logging found earlier = found := by
  have fresh := last_of_start started
  exact ⟨(poll_file fresh (finds found List.mem_cons_self) earlier).1, left_page fresh finds undisturbed,
    fun _ => left_same fresh⟩

/-- A system with a template, settings for plain code and further files. -/
def holding (template : Bytes) (rest : Folder) : World where
  files := ⟨.file (utf8 "rerb.yaml") (utf8 "template: raw\n") (.file (utf8 "a.erb") template rest), []⟩

def plainWatcher : Watcher := ⟨utf8 "a.erb", utf8 "out", Pipeline.barePipeline, none⟩

theorem start_plainWatcher :
    ((start (utf8 "a.erb") (utf8 "out") : Program _).run (holding [] .empty)).1 = .ok (.ok plainWatcher) := by
  have configured : ((configFor (dir (utf8 "a.erb")) : Program _).run (holding [] .empty)).1 =
      .ok (.ok Pipeline.bareConfig) := by decide +kernel
  exact start_ok configured Pipeline.ofConfig_bareConfig (by decide +kernel)

theorem aim_plainWatcher : aim [] plainWatcher.out = [utf8 "out"] := by decide +kernel

/-- What the polls found, as far as it can be computed. -/
theorem finds_plainWatcher {polls : List World}
    (each : ∀ f ∈ polls, (∀ n ∈ f.temporaryNumbers, n.all isDigit = true) ∧ f.files.current = [] ∧
      ∀ src ∈ (f.readFile plainWatcher.path).toOption,
        src.length < Bytes.signedLimit ∧ plainWatcher.pipeline.delimiters.namesMark src = false) :
    ∀ f ∈ polls, plainWatcher.Finds [] f := by
  intro f mem
  obtain ⟨numbered, current, unmarked⟩ := each f mem
  exact ⟨numbered, current, fun src read => unmarked src (by rw [read]; rfl)⟩

/-- The code for a paragraph. -/
def paragraphCode : Bytes := utf8 "@p_1 = document.createElement('p')\nroot.appendChild(@p_1)\n"

/-- A broken template after a good one, the last first. -/
def brokenPolls : List World :=
  [holding (utf8 "<p>") (.file (utf8 "out") paragraphCode .empty), holding (utf8 "<p></p>") .empty]

/-- The template cannot be read. -/
def unreadable : World where
  files := ⟨.file (utf8 "out") paragraphCode .empty, []⟩

theorem output_is_last_page_broken :
    ((start (utf8 "a.erb") (utf8 "out") : Program _).run (holding [] .empty)).1 = .ok (.ok plainWatcher) ∧
    (∀ f ∈ unreadable :: brokenPolls, plainWatcher.Finds [] f) ∧
    plainWatcher.Undisturbed false [utf8 "out"] (unreadable :: brokenPolls) ∧
    plainWatcher.page? (unreadable :: brokenPolls) = some paragraphCode ∧
    (plainWatcher.left false unreadable brokenPolls).file? [utf8 "out"] = some paragraphCode := by
  have finds : ∀ f ∈ unreadable :: brokenPolls, plainWatcher.Finds [] f :=
    finds_plainWatcher (by decide +kernel)
  have undisturbed : plainWatcher.Undisturbed false [utf8 "out"] (unreadable :: brokenPolls) := by
    refine ⟨?_, ?_, ?_, trivial⟩
    · rintro _ _ ⟨⟩
      decide +kernel
    · rintro _ _ ⟨⟩
      decide +kernel
    · rintro _ _ ⟨⟩
  have page : plainWatcher.page? (unreadable :: brokenPolls) = some paragraphCode := by decide +kernel
  have held := (output_is_last_page start_plainWatcher finds
    (show plainWatcher.Undisturbed false (aim [] plainWatcher.out) _ by rwa [aim_plainWatcher])).2.1
  rw [aim_plainWatcher, page, Option.some_or] at held
  exact ⟨start_plainWatcher, finds, undisturbed, page, held⟩

/-- A page that could not be written waits for a change of the template. The poll that fails leaves the
output as it is. When the template has the same content and the output can be written again, the page is
written if the last of the polls until then that could read the template read something else. If they
all read the same, or nothing, the poll does nothing. -/
theorem unwritten_page_waits {path out : Bytes} {v : World}
    (started : ((start path out : Program _).run v).1 = .ok (.ok w)) {here : List Bytes} {failed : World}
    {before between : List World} (finds : w.Finds here failed) (finds' : w.Finds here found) {built : Built}
    {e : FileError} {changed : Bool} (read : failed.readFile w.path = .ok src)
    (made : w.pipeline.file w.path src .code = .ok built)
    (unwritten : ((writeGenerated w.out built.content : InMemory _) failed).1 = .error e)
    (again : found.readFile w.path = .ok src)
    (writable : ((writeGenerated w.out built.content : InMemory _) found).1 = .ok changed) :
    (w.left logging failed before).file? (aim here w.out) = failed.file? (aim here w.out) ∧
    (w.lastRead (between ++ failed :: before) ≠ some src →
      (w.left logging found (between ++ failed :: before)).file? (aim here w.out) = some built.content) ∧
    ((∀ f ∈ between, ∀ text, f.readFile w.path = .ok text → text = src) →
      w.left logging found (between ++ failed :: before) = found) := by
  have fresh := last_of_start started
  refine ⟨?_, fun other => ?_, fun same => left_same fresh again (lastRead_between read same)⟩
  · have unchanged : w.renewal? before failed = none := by
      simp only [renewal?, read, made?, made, unwritten, ite_self]
    rw [(poll_file fresh finds before).2, unchanged, Option.none_or]
  · have renewed : w.renewal? (between ++ failed :: before) found = some built.content := by
      simp only [renewal?, again, if_neg other, made?, made, writable]
    rw [(poll_file fresh finds' _).2, renewed, Option.some_or]

/-- There is a folder in the place of the output. -/
def blocked : World := holding (utf8 "<p></p>") (.folder (utf8 "out") .empty .empty)

/-- The same template, with nothing in the place of the output. -/
def cleared : World := holding (utf8 "<p></p>") .empty

/-- Another template while there is nothing in the place of the output. -/
def edited : World := holding (utf8 "<br>") .empty

theorem build_paragraph : plainWatcher.pipeline.file plainWatcher.path (utf8 "<p></p>") .code =
    .ok ⟨paragraphCode, 1⟩ := by decide +kernel

theorem unwritten_page_waits_edited :
    (∃ e, ((writeGenerated plainWatcher.out paragraphCode : InMemory _) blocked).1 = .error e) ∧
    plainWatcher.lastRead [edited, blocked] = some (utf8 "<br>") ∧
    ((writeGenerated plainWatcher.out paragraphCode : InMemory _) cleared).1 = .ok true ∧
    (plainWatcher.left false cleared [edited, blocked]).file? [utf8 "out"] = some paragraphCode := by
  have finds : ∀ f ∈ [blocked, cleared], plainWatcher.Finds [] f := finds_plainWatcher (by decide +kernel)
  have unwritten : ((writeGenerated plainWatcher.out paragraphCode : InMemory _) blocked).1 =
    .error ⟨.rename, [utf8 "./.out.1", utf8 "out"], .alreadyExists⟩ := by decide +kernel
  have writable : ((writeGenerated plainWatcher.out paragraphCode : InMemory _) cleared).1 = .ok true := by
    decide +kernel
  have other : plainWatcher.lastRead [edited, blocked] = some (utf8 "<br>") := by decide +kernel
  have waits : _ ∧ (plainWatcher.lastRead ([edited] ++ [blocked]) ≠ some (utf8 "<p></p>") →
      (plainWatcher.left false cleared ([edited] ++ [blocked])).file? (aim [] plainWatcher.out) =
        some paragraphCode) ∧ _ :=
    unwritten_page_waits start_plainWatcher (finds blocked (by simp)) (finds cleared (by simp))
      (by decide +kernel) build_paragraph unwritten (by decide +kernel) writable
  rw [aim_plainWatcher] at waits
  refine ⟨⟨_, unwritten⟩, other, writable, waits.2.1 ?_⟩
  rw [List.singleton_append, other]
  decide +kernel

/-- A page that could not be written is not written when that has become possible. -/
theorem unwritten_page_lost :
    ((start (utf8 "a.erb") (utf8 "out") : Program _).run (holding [] .empty)).1 = .ok (.ok plainWatcher) ∧
    blocked.readFile plainWatcher.path = .ok (utf8 "<p></p>") ∧
    plainWatcher.pipeline.file plainWatcher.path (utf8 "<p></p>") .code = .ok ⟨paragraphCode, 1⟩ ∧
    ((writeGenerated plainWatcher.out paragraphCode : InMemory _) blocked).1 =
      .error ⟨.rename, [utf8 "./.out.1", utf8 "out"], .alreadyExists⟩ ∧
    cleared.readFile plainWatcher.path = .ok (utf8 "<p></p>") ∧
    ((writeGenerated plainWatcher.out paragraphCode : InMemory _) cleared).1 = .ok true ∧
    (plainWatcher.left false cleared [blocked]).file? [utf8 "out"] = none := by
  refine ⟨start_plainWatcher, ?_, build_paragraph, ?_⟩ <;> decide +kernel

end Watcher
end DomTemplate
