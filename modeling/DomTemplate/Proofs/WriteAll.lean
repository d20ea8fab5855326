import DomTemplate.Proofs.Discovered

/-! Writing the files of all templates. A run that succeeds leaves at each output path the file of the
last template that has it, and running the command once more changes no file, unless the configuration
is itself among the files that were written. -/

namespace DomTemplate
open Ascii DomTemplate.Path FileTree

namespace World
variable {w w' : World} {goal q : List Bytes} {place : List Bytes} {base content : Bytes} {good : Bool}

/-- Whether the file at a place can be replaced. -/
def Replaceable (w : World) (goal : List Bytes) : Prop :=
  ∃ place base, goal = place ++ [base] ∧ w.replaceable place base

/-- The tree has the same folders and the same files, whatever these hold. -/
structure Alike (w w' : World) : Prop where
  numbers : w'.temporaryNumbers = w.temporaryNumbers
  kinds : ∀ q, (w'.files.root.at? q).map Option.isSome = (w.files.root.at? q).map Option.isSome

theorem Alike.temporary? (h : w.Alike w') (place : List Bytes) (stem : Bytes) (ns : List Bytes) :
    w'.temporary? place stem ns = w.temporary? place stem ns := by
  induction ns with
  | nil => rfl
  | cons n ns ih =>
    have kind : (w'.files.root.at? (place ++ [stem ++ n])).isNone =
        (w.files.root.at? (place ++ [stem ++ n])).isNone := by
      simpa using congrArg Option.isNone (h.kinds (place ++ [stem ++ n]))
    rw [World.temporary?, World.temporary?, kind, ih]

theorem Alike.replaceable (h : w.Alike w') : w'.Replaceable goal ↔ w.Replaceable goal := by
  have kind (d : Folder) (q : List Bytes) :
      d.at? q = some none ↔ (d.at? q).map Option.isSome = some false := by
    cases d.at? q with
    | none => simp
    | some r => cases r <;> simp
  simp only [Replaceable, World.replaceable, h.numbers, h.temporary?, ne_eq, kind, h.kinds]

/-- The outcome of writing a file: it is there, or the tree is as it was. -/
inductive Writes (w : World) (place : List Bytes) (base content : Bytes) : Bool → World → Prop
  | done (errors : Bytes) (able : w.accepts place base content) : Writes w place base content true
      ((w.withRoot (w.files.root.put (place ++ [base]) (.file content))).withErrors errors)
  | failed (errors : Bytes) (unable : ¬w.accepts place base content) :
      Writes w place base content false (w.withErrors errors)

section
variable (plain : w.Plain) (output : IsOutputAt place base)
include plain output

theorem accepts_limits (able : w.accepts place base content) :
    limits (place ++ [base]) = .ok (place ++ [base]) ∧ w.files.root.at? (place ++ [base]) ≠ some none := by
  rcases able with same | replaceable
  · obtain ⟨there, fits⟩ := (readFile_ok plain output.isPlace).mp same
    exact ⟨fits, by rw [there]; simp⟩
  · exact replaceable.2

variable (h : w.Writes place base content good w')
include h

theorem Writes.at?_of_ne (other : q ≠ place ++ [base]) :
    w'.files.root.at? q = w.files.root.at? q := by
  cases h with
  | failed errors unable => rfl
  | done errors able => exact Folder.at?_put_of_ne (accepts_limits plain output able).2 other

variable (parent : w.files.root.at? place = some none)
include parent

theorem Writes.gains : w.Gains w' := by
  cases h with
  | failed errors unable => exact ⟨rfl, rfl, rfl, .refl⟩
  | done errors able =>
    exact ⟨rfl, rfl, rfl, .put content .refl output parent (accepts_limits plain output able).2⟩

end

theorem Writes.readFile (plain : w.Plain) (output : IsOutputAt place base)
    (h : w.Writes place base content true w') (parent : w.files.root.at? place = some none) :
    w'.readFile (ofNames true (place ++ [base])) = .ok content := by
  rw [readFile_ok ((h.gains plain output parent).plain plain)
    output.isPlace]
  cases h with
  | done errors able =>
    exact ⟨Folder.at?_eq_file.mpr (Folder.get?_put parent), (accepts_limits plain output able).1⟩

/-- The file that a template is to be compiled to. -/
def Produces (w : World) (p : Pipeline) (emit : Emit) (t content : Bytes) : Prop :=
  ∃ src built, w.readFile t = .ok src ∧ p.file t src emit = .ok built ∧ content = built.content

theorem Produces.unique {p : Pipeline} {emit : Emit} {t content' : Bytes}
    (h : w.Produces p emit t content) (h' : w.Produces p emit t content') : content = content' := by
  obtain ⟨src, built, read, made, rfl⟩ := h
  obtain ⟨src', built', read', made', rfl⟩ := h'
  rw [read] at read'
  cases read'
  rw [made] at made'
  cases made'
  rfl

theorem Gains.produces {p : Pipeline} {emit : Emit} {t : Bytes} (h : w.Gains w') (plain : w.Plain)
    (found : IsFound t) : w'.Produces p emit t content ↔ w.Produces p emit t content := by
  simp only [Produces, h.readFile_template plain found]

end World

namespace Command
variable {w w' : World} {p : Pipeline} {emit : Emit} {logging good : Bool} {dir t content : Bytes}

theorem problem_apply (message : Bytes) (w : World) :
    ∃ errors, (problem message : InMemory Bool) w = (false, w.withErrors errors) := ⟨_, rfl⟩

theorem buildReporting_ok {path src : Bytes} {built : Built} (made : p.file path src emit = .ok built)
    (logging : Bool) (shown : Bytes) (w : World) :
    ∃ errors, (buildReporting p emit logging path shown src : Program _).run w =
      (.ok (some built.content), w.withErrors errors) := by
  obtain ⟨errors, logged⟩ := logWhen_apply (logging && emit == .code)
    (.about .debug (utf8 "built template") path
      [(utf8 "elements", .number built.elements), (utf8 "bytes", .number built.content.length)]) w
  refine ⟨errors, ?_⟩
  simp only [buildReporting, made]
  rw [run_lift_bind, logged]
  rfl

theorem generate_writes (plain : w.Plain) {place : List Bytes} {name base : Bytes}
    (template : IsTemplateAt place name) (output : IsOutputAt place base)
    (goes : p.outPath (ofNames true (place ++ [name])) emit = ofNames true (place ++ [base]))
    (produces : w.Produces p emit (ofNames true (place ++ [name])) content) :
    w.files.root.at? place = some none ∧ ∃ good w',
      (generate p emit logging dir (ofNames true (place ++ [name])) : Program _).run w =
        (.ok good, w') ∧ w.Writes place base content good w' := by
  obtain ⟨src, built, read, made, rfl⟩ := produces
  obtain ⟨there, fits⟩ :=
    (World.readFile_ok plain template.isPlace).mp read
  have inside : w.files.root.at? (place ++ name :: []) ≠ none := by rw [there]; simp
  have parent := Folder.at?_front inside
  refine ⟨parent, ?_⟩
  obtain ⟨errors, reported⟩ :=
    buildReporting_ok made logging (displayPath dir (ofNames true (place ++ [name]))) w
  have plain' : (w.withErrors errors).Plain := ⟨plain.free, plain.numbers⟩
  simp only [generate, run_lift_bind, readFile_apply, read, run_bind_ok reported, goes]
  by_cases able : w.accepts place base built.content
  · obtain ⟨changed, wrote⟩ := World.writeGenerated_ok plain' parent output.placed
      output.named (limits_front fits) (World.accepts_withErrors.mpr able)
    obtain ⟨more, logged⟩ := logWhen_apply (logging && changed)
      (.about .info (utf8 "wrote") (displayPath dir (ofNames true (place ++ [base]))) [])
      ((w.withErrors errors).withRoot
        ((w.withErrors errors).files.root.put (place ++ [base]) (.file built.content)))
    refine ⟨true, _, ?_, .done more able⟩
    simp only [wrote, run_lift_bind, logged]
    rfl
  · obtain ⟨e, failed⟩ := World.writeGenerated_error plain' parent output.placed
      output.named (limits_front fits) (mt World.accepts_withErrors.mp able)
    obtain ⟨more, reported⟩ := problem_apply e.message (w.withErrors errors)
    refine ⟨false, _, ?_, .failed more able⟩
    simp only [failed, run_lift, reported]
    rfl

theorem produces_of_generate
    (h : (generate p emit logging dir t : Program _).run w = (.ok true, w')) :
    ∃ content, w.Produces p emit t content := by
  rw [generate, run_lift_bind, readFile_apply] at h
  cases read : w.readFile t with
  | error e =>
    rw [read] at h
    cases h
  | ok src =>
    rw [read] at h
    obtain ⟨answer, v, reported, rest⟩ := of_run_bind h
    cases made : p.file t src emit with
    | ok built => exact ⟨built.content, src, built, read, made, rfl⟩
    | error failure =>
      simp only [buildReporting, made] at reported
      cases failure with
      | crashed crash => cases reported
      | refused e =>
        cases reported
        cases rest

/-- The place of the file for the template at `t`. -/
def goal (p : Pipeline) (emit : Emit) (t : Bytes) : List Bytes := names (p.outPath t emit)

theorem goal_output (p : Pipeline) (emit : Emit) {place : List Bytes} {name : Bytes}
    (template : IsTemplateAt place name) :
    ∃ base, IsOutputAt place base ∧ goal p emit (ofNames true (place ++ [name])) = place ++ [base] ∧
      p.outPath (ofNames true (place ++ [name])) emit = ofNames true (place ++ [base]) := by
  obtain ⟨base, output, goes⟩ := p.outPath_next emit template
  refine ⟨base, output, ?_, goes⟩
  rw [goal, goes, names_ofNames output.isPlace]

theorem outPath_goal (found : IsFound t) : p.outPath t emit = ofNames true (goal p emit t) := by
  obtain ⟨place, name, template, rfl⟩ := found
  obtain ⟨base, output, aim, goes⟩ := goal_output p emit template
  rw [goes, aim]

theorem readFile_outPath (plain : w.Plain) (found : IsFound t) :
    w.readFile (p.outPath t emit) = .ok content ↔
      w.files.root.at? (goal p emit t) = some (some content) ∧
        limits (goal p emit t) = .ok (goal p emit t) := by
  obtain ⟨place, name, template, rfl⟩ := found
  obtain ⟨base, output, aim, goes⟩ := goal_output p emit template
  rw [goes, aim, World.readFile_ok plain output.isPlace]

theorem generate_step (plain : w.Plain) (found : IsFound t) (produces : w.Produces p emit t content) :
    ∃ place base good w', IsOutputAt place base ∧ goal p emit t = place ++ [base] ∧
      w.files.root.at? place = some none ∧
      (generate p emit logging dir t : Program _).run w = (.ok good, w') ∧
      w.Writes place base content good w' := by
  obtain ⟨place, name, template, rfl⟩ := found
  obtain ⟨base, output, aim, goes⟩ := goal_output p emit template
  obtain ⟨parent, good, w', ran, writes⟩ := generate_writes plain template output goes produces
  exact ⟨place, base, good, w', output, aim, parent, ran, writes⟩

theorem generate_good (plain : w.Plain) (found : IsFound t)
    (ran : (generate p emit logging dir t : Program _).run w = (.ok true, w')) :
    w.Gains w' ∧ (∀ q, goal p emit t ≠ q → w'.files.root.at? q = w.files.root.at? q) ∧
    ∃ content, w.Produces p emit t content ∧ w'.readFile (p.outPath t emit) = .ok content := by
  obtain ⟨content, produces⟩ := produces_of_generate ran
  obtain ⟨place, base, good, v, output, aim, parent, same, writes⟩ := generate_step plain found produces
  rw [ran] at same
  cases same
  refine ⟨writes.gains plain output parent, ?_, content, produces, ?_⟩
  · intro q other
    exact writes.at?_of_ne plain output (aim ▸ other.symm)
  · rw [outPath_goal found, aim, writes.readFile plain output parent]

theorem of_generateAll_cons {ts : List Bytes}
    (ran : (generateAll p emit logging dir (t :: ts) : Program _).run w = (.ok true, w')) :
    ∃ v, (generate p emit logging dir t : Program _).run w = (.ok true, v) ∧
      (generateAll p emit logging dir ts : Program _).run v = (.ok true, w') := by
  obtain ⟨good, v, first, rest⟩ := of_run_bind ran
  obtain ⟨others, v', later, finish⟩ := of_run_bind rest
  obtain ⟨both, rfl⟩ := Prod.mk.inj finish
  rw [Except.ok.injEq, Bool.and_eq_true] at both
  obtain ⟨rfl, rfl⟩ := both
  exact ⟨v, first, later⟩

/-- Each output path holds the file of the last template that has it. -/
def HoldsLast (p : Pipeline) (emit : Emit) (ts : List Bytes) (w w' : World) : Prop :=
  ∀ front t back content, ts = front ++ t :: back → (∀ t' ∈ back, goal p emit t' ≠ goal p emit t) →
    w.Produces p emit t content → w'.readFile (p.outPath t emit) = .ok content

theorem generateAll_good {ts : List Bytes} (plain : w.Plain) (found : ∀ t ∈ ts, IsFound t)
    (ran : (generateAll p emit logging dir ts : Program _).run w = (.ok true, w')) :
    w.Gains w' ∧
    (∀ q, (∀ t ∈ ts, goal p emit t ≠ q) → w'.files.root.at? q = w.files.root.at? q) ∧
    (∀ t ∈ ts, (∃ content, w.Produces p emit t content) ∧
      ∃ content, w'.files.root.at? (goal p emit t) = some (some content)) ∧
    HoldsLast p emit ts w w' := by
  induction ts generalizing w with
  | nil =>
    cases ran
    refine ⟨⟨rfl, rfl, rfl, .refl⟩, fun _ _ => rfl, by simp, ?_⟩
    intro front t back content split
    simp at split
  | cons t ts ih =>
    rw [List.forall_mem_cons] at found
    obtain ⟨v, first, later⟩ := of_generateAll_cons ran
    obtain ⟨gains, elsewhere, content, produces, read⟩ := generate_good plain found.1 first
    obtain ⟨more, frame, each, last⟩ := ih (gains.plain plain) found.2 later
    have there := (readFile_outPath (gains.plain plain) found.1).mp read
    refine ⟨gains.trans more, ?_, ?_, ?_⟩
    · intro q other
      rw [List.forall_mem_cons] at other
      rw [frame q other.2, elsewhere q other.1]
    · rw [List.forall_mem_cons]
      refine ⟨⟨⟨content, produces⟩, more.root.file ⟨content, there.1⟩⟩, fun t' mem => ?_⟩
      obtain ⟨⟨content', produces'⟩, file⟩ := each t' mem
      exact ⟨⟨content', (gains.produces plain (found.2 t' mem)).mp produces'⟩, file⟩
    · intro front t' back content' split final produces'
      rcases List.cons_eq_append_iff.mp split with ⟨rfl, same⟩ | ⟨front', rfl, rest⟩
      -- the first template is the last one for its path: the others leave its file alone
      · cases same
        have plain' := more.plain (gains.plain plain)
        rw [produces'.unique produces, readFile_outPath plain' found.1, frame _ final]
        exact there
      · have member : t' ∈ ts := by rw [rest]; simp
        exact last front' t' back content' rest final
          ((gains.produces plain (found.2 t' member)).mpr produces')

/-- `v` is a system in the course of a second run, which started from `w`: only files that can be
replaced differ, and these in nothing but what they hold. -/
structure Rerun (w v : World) : Prop where
  gains : w.Gains v
  alike : w.Alike v
  settled : ∀ q, v.files.root.at? q = w.files.root.at? q ∨ w.Replaceable q

theorem Rerun.write {v v' : World} {place : List Bytes} {base : Bytes} (h : Rerun w v) (plain : w.Plain)
    (output : IsOutputAt place base) (parent : v.files.root.at? place = some none)
    (file : ∃ old, w.files.root.at? (place ++ [base]) = some (some old))
    (writes : v.Writes place base content good v') : Rerun w v' := by
  have gains := h.gains.trans (writes.gains (h.gains.plain plain) output parent)
  have elsewhere := fun q => writes.at?_of_ne (h.gains.plain plain) output (q := q)
  refine ⟨gains, ⟨gains.numbers, fun q => ?_⟩, fun q => ?_⟩
  · by_cases here : q = place ++ [base]
    · obtain ⟨new, written⟩ := gains.root.file file
      obtain ⟨old, before⟩ := file
      rw [here, written, before]
      rfl
    · rw [elsewhere q here, h.alike.kinds]
  · by_cases here : q = place ++ [base]
    · cases writes with
      | failed errors unable => exact h.settled q
      | done errors able =>
        rcases able with same | replaceable
        -- the file had its content, so that nothing was written
        · have there := ((World.readFile_ok (h.gains.plain plain)
            output.isPlace).mp same).1
          have unchanged := Folder.put_self (Folder.at?_eq_file.mp there)
          simp only [World.withErrors, World.withRoot, unchanged]
          exact h.settled q
        · exact .inr (h.alike.replaceable.mp ⟨place, base, here, replaceable⟩)
    · rw [elsewhere q here]
      exact h.settled q

theorem generateAll_again (logging : Bool) (dir : Bytes) {ts : List Bytes} {v : World} (plain : w.Plain)
    (found : ∀ t ∈ ts, IsFound t)
    (each : ∀ t ∈ ts, (∃ content, w.Produces p emit t content) ∧
      ∃ content, w.files.root.at? (goal p emit t) = some (some content))
    (last : HoldsLast p emit ts w w) (h : Rerun w v) :
    ∃ good v', (generateAll p emit logging dir ts : Program _).run v = (.ok good, v') ∧
      ∀ q, v'.files.root.at? q = w.files.root.at? q ∨
        (∀ t ∈ ts, goal p emit t ≠ q) ∧ v'.files.root.at? q = v.files.root.at? q := by
  induction ts generalizing v with
  | nil => exact ⟨true, v, rfl, fun q => .inr ⟨by simp, rfl⟩⟩
  | cons t ts ih =>
    rw [List.forall_mem_cons] at found each
    obtain ⟨⟨content, produces⟩, file⟩ := each.1
    have plain' := h.gains.plain plain
    obtain ⟨place, base, good, v₁, output, aim, parent, ran, writes⟩ :=
      generate_step plain' found.1 ((h.gains.produces plain found.1).mpr produces)
    rw [aim] at file
    have next := h.write plain output parent file writes
    obtain ⟨others, v', later, outcome⟩ := ih found.2 each.2
      (fun front t' back content split => last (t :: front) t' back content (by rw [split]; rfl)) next
    refine ⟨good && others, v', ?_, fun q => ?_⟩
    · rw [generateAll, run_bind_ok ran, run_bind_ok later]
      rfl
    · rcases outcome q with same | ⟨other, kept⟩
      · exact .inl same
      by_cases here : goal p emit t = q
      -- no later template has this path, so the first run left the file of this one there
      · have final := last [] t ts content rfl (here ▸ other) produces
        rw [readFile_outPath plain found.1, here] at final
        refine .inl ?_
        rw [kept, final.1, ← here, aim]
        cases writes with
        | done errors able => exact Folder.at?_eq_file.mpr (Folder.get?_put parent)
        | failed errors unable =>
          -- a file that cannot be replaced is still the one of the first run
          rw [← final.1, ← here, aim]
          refine (h.settled _).resolve_right fun replaceable => unable (.inr ?_)
          obtain ⟨place', base', same, able⟩ := h.alike.replaceable.mpr replaceable
          obtain ⟨rfl, rfl⟩ := (List.append_inj' same rfl).imp id List.singleton_inj.mp
          exact able
      · refine .inr ⟨List.forall_mem_cons.mpr ⟨here, other⟩, ?_⟩
        rw [kept, writes.at?_of_ne plain' output (aim ▸ Ne.symm here)]

section Running
variable {args operands : List Bytes} {o : Options} {c : Config}

/-- The patterns that stand for the operands: without any, the whole tree below. -/
def patterns (operands : List Bytes) : List Bytes :=
  if operands.isEmpty then [utf8 "./..."] else operands

/-- A run that writes, once it is known what it is to do. -/
theorem run_write {v v' : World} {ts : List Bytes}
    (asked : Arguments.parse {} args = .run o operands)
    (task : task o operands = .ok (emit, .writeAll operands))
    (configured : (configure o (ofNames true w.files.current) : Program _).run w =
      (.ok (.ok c), v))
    (piped : Pipeline.ofConfig c = .ok p)
    (found : ((findTemplates (ofNames true w.files.current) (patterns operands) : InMemory _) v).1 = .ok ts)
    (ran : (generateAll p emit o.debug (ofNames true w.files.current) ts : Program _).run v =
      (.ok good, v')) :
    (run args : Program _).run w = (.ok (if good then 0 else 1), v') := by
  have all : (writeAll p emit o.debug (ofNames true w.files.current) operands :
      Program _).run v = (.ok good, v') := by
    rw [writeAll, run_lift_bind, findTemplates_world, ← patterns, found]
    exact ran
  have performed : (perform o emit (.writeAll operands) : Program _).run w = (.ok good, v') := by
    rw [perform, run_lift_bind, currentDirectory_apply, run_bind_ok configured]
    simp only [piped]
    exact all
  simp only [run, asked, task, run_bind_ok performed]
  cases good <;> rfl

theorem of_run_write (asked : Arguments.parse {} args = .run o operands) (write : o.write = true)
    (ran : (run args : Program _).run w = (.ok 0, w')) :
    ∃ emit c p v ts, Emit.named o.emit = .ok emit ∧ task o operands = .ok (emit, .writeAll operands) ∧
      (configure o (ofNames true w.files.current) : Program _).run w = (.ok (.ok c), v) ∧
      Pipeline.ofConfig c = .ok p ∧
      ((findTemplates (ofNames true w.files.current) (patterns operands) : InMemory _) v).1 = .ok ts ∧
      (generateAll p emit o.debug (ofNames true w.files.current) ts : Program _).run v =
        (.ok true, w') := by
  simp only [run, asked] at ran
  obtain ⟨emit, named, task⟩ : ∃ emit, Emit.named o.emit = .ok emit ∧
      task o operands = .ok (emit, .writeAll operands) := by
    cases named : Emit.named o.emit with
    | error e =>
      simp only [task, named] at ran
      cases ran
    | ok emit =>
      simp only [task, named, write, if_true] at ran ⊢
      split_ifs at ran ⊢ with out
      · exact ⟨emit, rfl, rfl⟩
      · cases ran
  simp only [task] at ran
  obtain ⟨good, v, performed, finish⟩ := of_run_bind ran
  obtain ⟨rfl, rfl⟩ : good = true ∧ v = w' := by
    cases good with
    | true => exact ⟨rfl, congrArg Prod.snd finish⟩
    | false => cases finish
  rw [perform, run_lift_bind, currentDirectory_apply] at performed
  obtain ⟨answer, u, configured, rest⟩ := of_run_bind performed
  cases answer with
  | error e => cases rest
  | ok c =>
    cases piped : Pipeline.ofConfig c with
    | error e =>
      simp only [piped] at rest
      cases rest
    | ok p =>
      simp only [piped] at rest
      rw [writeAll, run_lift_bind, findTemplates_world, ← patterns] at rest
      cases found : ((findTemplates (ofNames true w.files.current) (patterns operands) : InMemory _) u).1 with
      | error e =>
        rw [found] at rest
        cases rest
      | ok ts =>
        rw [found] at rest
        exact ⟨emit, c, p, u, ts, named, task, configured, piped, found, rest⟩

/-- Only messages tell a configured system from the one before. -/
theorem configure_world {v : World} {dir : Bytes} (plain : w.Plain)
    (configured : (configure o dir : Program _).run w = (.ok (.ok c), v)) :
    ∃ errors, v = w.withErrors errors := by
  have unchanged : w.Gains w := ⟨rfl, rfl, rfl, .refl⟩
  obtain ⟨errors, same⟩ := unchanged.configure plain (.inr rfl) (congrArg Prod.fst configured)
  rw [configured] at same
  exact ⟨errors, congrArg Prod.snd same⟩

theorem gains_withErrors (w : World) (errors : Bytes) :
    w.Gains (w.withErrors errors) ∧ (w.withErrors errors).Gains w :=
  ⟨⟨rfl, rfl, rfl, .refl⟩, ⟨rfl, rfl, rfl, .refl⟩⟩

theorem last_of_greatest {ts : List Bytes} (increasing : Increasing ts) (found : ∀ t ∈ ts, IsFound t)
    {front back : List Bytes} (split : ts = front ++ t :: back)
    (greatest : ∀ t' ∈ ts, p.outPath t' emit = p.outPath t emit → t'.le t = true) :
    ∀ t' ∈ back, goal p emit t' ≠ goal p emit t := by
  intro t' later same
  have mem : t' ∈ ts := by
    rw [split]
    exact List.mem_append_right _ (List.mem_cons_of_mem _ later)
  have before := greatest t' mem (by
    rw [outPath_goal (found t' mem), same, ← outPath_goal (found t (by rw [split]; simp))])
  rw [Increasing, split, List.pairwise_append, List.pairwise_cons] at increasing
  rw [increasing.2.1.1 t' later] at before
  cases before

theorem run_again {v : World} {ts : List Bytes} (plain : w.Plain) (gains : w.Gains w')
    (asked : Arguments.parse {} args = .run o operands)
    (task : task o operands = .ok (emit, .writeAll operands))
    (configured : (configure o (ofNames true w.files.current) : Program _).run w =
      (.ok (.ok c), v))
    (piped : Pipeline.ofConfig c = .ok p)
    (found : ((findTemplates (ofNames true w.files.current) (patterns operands) : InMemory _) w).1 = .ok ts)
    (each : ∀ t ∈ ts, (∃ content, w.Produces p emit t content) ∧
      ∃ content, w'.files.root.at? (goal p emit t) = some (some content))
    (last : HoldsLast p emit ts w w')
    (kept : o.config = [] ∨ w'.readFile o.config = w.readFile o.config) (place : List Bytes) :
    ((run args : Program _).run w').2.files.root.at? place = w'.files.root.at? place := by
  obtain ⟨errors, configured'⟩ := gains.configure plain kept (congrArg Prod.fst configured)
  have templates := (findTemplates_found plain rfl found).2
  have gains' := gains.trans (gains_withErrors w' errors).1
  have each' (t : Bytes) (mem : t ∈ ts) :
      (∃ content, (w'.withErrors errors).Produces p emit t content) ∧
        ∃ content, (w'.withErrors errors).files.root.at? (goal p emit t) = some (some content) := by
    obtain ⟨⟨content, produces⟩, file⟩ := each t mem
    exact ⟨⟨content, (gains'.produces plain (templates t mem)).mpr produces⟩, file⟩
  have last' : HoldsLast p emit ts (w'.withErrors errors) (w'.withErrors errors) := by
    intro front t back content split final produces
    have mem : t ∈ ts := by rw [split]; simp
    exact last front t back content split final ((gains'.produces plain (templates t mem)).mp produces)
  obtain ⟨good, v', ran, outcome⟩ := generateAll_again o.debug (ofNames true w'.files.current)
    (gains'.plain plain) templates each' last'
    ⟨⟨rfl, rfl, rfl, .refl⟩, ⟨rfl, fun _ => rfl⟩, fun _ => .inl rfl⟩
  have found' := gains'.findTemplates plain rfl found
  rw [← gains.current] at configured' found'
  rw [run_write asked task configured' piped found' ran]
  exact (outcome place).elim id And.right

/-- A run that writes and succeeds found templates that all can be read and compiled. Afterwards each
output path holds the file of the greatest template that has it, and the same command once more changes
no file, provided the configuration file that is named, if any, still reads the same. -/
theorem run_write_outputs (plain : w.Plain) (asked : Arguments.parse {} args = .run o operands)
    (write : o.write = true) (ran : (run args : Program _).run w = (.ok 0, w')) :
    ∃ emit c p ts, Emit.named o.emit = .ok emit ∧
      ((configure o (ofNames true w.files.current) : Program _).run w).1 = .ok (.ok c) ∧
      Pipeline.ofConfig c = .ok p ∧
      ((findTemplates (ofNames true w.files.current) (patterns operands) : InMemory _) w).1 = .ok ts ∧
      (∀ t ∈ ts, ∃ src built, w.readFile t = .ok src ∧ w'.readFile t = .ok src ∧
        p.file t src emit = .ok built ∧
        ((∀ t' ∈ ts, p.outPath t' emit = p.outPath t emit → t'.le t = true) →
          w'.readFile (p.outPath t emit) = .ok built.content)) ∧
      (o.config = [] ∨ w'.readFile o.config = w.readFile o.config → ∀ place,
        ((run args : Program _).run w').2.files.root.at? place =
          w'.files.root.at? place) := by
  obtain ⟨emit, c, p, v, ts, named, task, configured, piped, found, generated⟩ :=
    of_run_write asked write ran
  obtain ⟨errors, rfl⟩ := configure_world plain configured
  obtain ⟨here, back⟩ := gains_withErrors w errors
  replace found := back.findTemplates (here.plain plain) rfl found
  obtain ⟨increasing, templates⟩ := findTemplates_found plain rfl found
  obtain ⟨more, -, each, last⟩ := generateAll_good (here.plain plain) templates generated
  have gains := here.trans more
  have each' (t : Bytes) (mem : t ∈ ts) : (∃ content, w.Produces p emit t content) ∧
      ∃ content, w'.files.root.at? (goal p emit t) = some (some content) := each t mem
  have last' : HoldsLast p emit ts w w' := last
  refine ⟨emit, c, p, ts, named, congrArg Prod.fst configured, piped, found, fun t mem => ?_, ?_⟩
  · obtain ⟨content, src, built, read, made, rfl⟩ := (each' t mem).1
    refine ⟨src, built, read, (gains.readFile_template plain (templates t mem)).mpr read, made, ?_⟩
    intro greatest
    obtain ⟨front, back, split⟩ := List.append_of_mem mem
    exact last' front t back built.content split
      (last_of_greatest increasing templates split greatest) ⟨src, built, read, made, rfl⟩
  · exact run_again plain gains asked task configured piped found each' last'

end Running

/-- Two templates with one output path, where there is a file already. -/
def sharing : World where
  files := ⟨.file (utf8 "x.erb") (utf8 "a") (.file (utf8 "x.html.erb") (utf8 "b")
    (.file (utf8 "x.ir") [] .empty)), []⟩

def dumpArgs : List Bytes := [utf8 "-w", utf8 "-emit", utf8 "ir"]

/-- The two templates after a run. -/
def shared : World := ((run dumpArgs : Program _).run sharing).2

theorem run_write_outputs_sharing :
    sharing.Plain ∧ Arguments.parse {} dumpArgs = .run { emit := utf8 "ir", write := true } [] ∧
    (run dumpArgs : Program _).run sharing = (.ok 0, shared) ∧
    (∃ (c : Config) (p : Pipeline) (ts : List Bytes), Pipeline.ofConfig c = .ok p ∧
      ((findTemplates (ofNames true []) (patterns []) : InMemory _) sharing).1 = .ok ts ∧
      ∀ t ∈ ts, ∃ src built, sharing.readFile t = .ok src ∧ shared.readFile t = .ok src ∧
        p.file t src .intents = .ok built ∧
        ((∀ t' ∈ ts, p.outPath t' .intents = p.outPath t .intents → t'.le t = true) →
          shared.readFile (p.outPath t .intents) = .ok built.content)) ∧
    ∀ place, ((run dumpArgs : Program _).run shared).2.files.root.at? place =
      shared.files.root.at? place := by
  have plain : sharing.Plain := ⟨fun _ _ => rfl, by decide +kernel⟩
  have asked : Arguments.parse {} dumpArgs = .run { emit := utf8 "ir", write := true } [] := by
    decide +kernel
  have ran : (run dumpArgs : Program _).run sharing = (.ok 0, shared) :=
    Prod.ext (by decide +kernel) rfl
  obtain ⟨emit, c, p, ts, named, -, piped, found, each, again⟩ := run_write_outputs plain asked rfl ran
  have dumped : Emit.named (utf8 "ir") = .ok .intents := rfl
  obtain rfl := Except.ok.inj (dumped.symm.trans named)
  exact ⟨plain, asked, ran, ⟨c, p, ts, piped, found, each⟩, again (.inl rfl)⟩

/-- The pipeline of the settings by default. -/
def defaultPipeline : Pipeline := ⟨{}, .brace, .ruby, .node, .viewModel⟩

/-- A configuration in the place of an output. -/
def overwriting : World where
  files := ⟨.file (utf8 "a.rb") (utf8 "template: raw\n")
    (.file (utf8 "a.erb") (utf8 "\x7btarget: js\x7d") .empty), []⟩

def configArgs : List Bytes := [utf8 "-w", utf8 "-config", utf8 "a.rb"]

/-- Of two templates with one output path, the file of the first is lost although the run succeeds. And a
run may replace the configuration that it is given, so that the next run writes another file. -/
theorem run_write_loses :
    (((run dumpArgs : Program _).run sharing).1 = .ok 0 ∧
      ((findTemplates (ofNames true []) (patterns []) : InMemory _) sharing).1 =
        .ok [utf8 "/x.erb", utf8 "/x.html.erb"] ∧
      Pipeline.ofConfig {} = .ok defaultPipeline ∧
      defaultPipeline.file (utf8 "/x.erb") (utf8 "a") .intents =
        .ok ⟨utf8 "(container root\n  (container root\n    (content \"a\")\n  )\n)\n", 0⟩ ∧
      shared.readFile (defaultPipeline.outPath (utf8 "/x.erb") .intents) ≠
        .ok (utf8 "(container root\n  (container root\n    (content \"a\")\n  )\n)\n")) ∧
    (((run configArgs : Program _).run overwriting).1 = .ok 0 ∧
      ((run configArgs : Program _).run overwriting).2.files.root.at? [utf8 "a.js"] = none ∧
      ((run configArgs : Program _).run
        ((run configArgs : Program _).run overwriting).2).2.files.root.at? [utf8 "a.js"] ≠
          none) := by
  refine ⟨⟨by decide +kernel, by decide +kernel, rfl, by decide +kernel, by decide +kernel⟩, ?_⟩
  decide +kernel

end Command

end DomTemplate
