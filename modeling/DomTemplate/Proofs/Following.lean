import DomTemplate.Files.Output
import DomTemplate.Proofs.FileTrees

/-! Paths of any form: relative ones, with dots in them or slashes at their ends. The names of a path
say where it aims, and if it leads anywhere it leads there. Cleaning a path changes its names but not
its aim, so a file in the directory of a path is next to what the path aims at. -/

namespace DomTemplate
open Ascii

namespace Path

theorem split_append (p : Bytes) : (split p).1 ++ (split p).2 = p := by
  have ends : p.reverse.takeWhile (· != slash) <+: p.reverse := List.takeWhile_prefix _
  obtain ⟨front, whole⟩ := List.reverse_suffix.mpr ends
  rw [List.reverse_reverse] at whole
  have size := congrArg List.length whole
  simp only [List.length_append] at size
  have count : p.length - (p.reverse.takeWhile (· != slash)).reverse.length = front.length := by omega
  have start : p.take front.length = front := by
    conv_lhs => rw [← whole]
    exact List.take_left
  rw [split, count, start, whole]

theorem split_fst (p : Bytes) : (split p).1 = Bytes.dropWhileRight (· != slash) p := by
  have whole : Bytes.dropWhileRight (· != slash) p ++ (split p).2 = p := by
    rw [Bytes.dropWhileRight, split, ← List.reverse_append, List.takeWhile_append_dropWhile,
      List.reverse_reverse]
  exact List.append_cancel_right ((split_append p).trans whole.symm)

theorem slash_not_mem_split (p : Bytes) : slash ∉ (split p).2 := by
  intro mem
  have other := List.mem_takeWhile_imp (List.mem_reverse.mp mem)
  simp at other

/-- The last name comes after a slash, if there is anything before it. -/
theorem split_front (p : Bytes) : (split p).1 = [] ∨ ∃ front, (split p).1 = front ++ [slash] := by
  rw [split_fst, Bytes.dropWhileRight]
  cases rest : p.reverse.dropWhile (· != slash) with
  | nil => exact .inl rfl
  | cons c cs =>
    have stops := List.head?_dropWhile_not (· != slash) p.reverse
    rw [rest] at stops
    simp only [List.head?_cons, bne_eq_false_iff_eq] at stops
    exact .inr ⟨cs.reverse, by simp [stops]⟩

theorem base_ne_nil (p : Bytes) : base p ≠ [] := by
  simp only [base]
  split_ifs with empty unnamed
  · exact List.cons_ne_nil _ _
  · exact List.cons_ne_nil _ _
  · exact mt List.isEmpty_iff.mpr unnamed

theorem base_eq_split {p : Bytes} (named : (split p).2 ≠ []) : base p = (split p).2 := by
  obtain ⟨front, last, name⟩ := (List.eq_nil_or_concat (split p).2).resolve_left named
  rw [List.concat_eq_append] at name
  have other : last ≠ slash := by
    rintro rfl
    exact slash_not_mem_split p (by rw [name]; simp)
  have nonempty : p.isEmpty = false := by
    rw [List.isEmpty_eq_false_iff]
    rintro rfl
    exact named rfl
  have bare : Bytes.dropWhileRight (· == slash) p = p := by
    conv_lhs => rw [← split_append p, name, ← List.append_assoc]
    rw [Bytes.dropWhileRight, List.reverse_concat, List.dropWhile_cons_of_neg (by simpa using other),
      ← List.reverse_concat, List.reverse_reverse, List.append_assoc, ← name, split_append]
  rw [base, nonempty, bare]
  simp [named]

/-- Where a name leads from a place. -/
def advance (place : List Bytes) (name : Bytes) : List Bytes :=
  if name.isEmpty || name == here then place
  else if name = up then place.dropLast
  else place ++ [name]

theorem advance_name {name : Bytes} (h : IsName name) (place : List Bytes) :
    advance place name = place ++ [name] := by
  simp [advance, h.nonempty, h.forward.1, h.forward.2]

/-- Nothing is gained by names that are empty. -/
theorem foldl_advance_filter (place : List Bytes) (ns : List Bytes) :
    (ns.filter (!·.isEmpty)).foldl advance place = ns.foldl advance place := by
  induction ns generalizing place with
  | nil => rfl
  | cons name ns ih =>
    cases name with
    | nil => exact ih place
    | cons c name => exact ih _

/-- A name that may be left in a cleaned path: it leads away, be it upward. -/
structure IsStep (name : Bytes) : Prop where
  nonempty : name ≠ []
  whole : slash ∉ name
  moves : name ≠ here

/-- One name more, on the names of a cleaned path and on the place itself. -/
theorem foldl_advance_follow {rooted : Bool} {place stack : List Bytes} {name : Bytes}
    (start : rooted = true → place = []) (steps : ∀ n ∈ stack, IsStep n)
    (named : name ≠ [] ∧ slash ∉ name) :
    (∀ n ∈ follow rooted stack name, IsStep n) ∧
      (follow rooted stack name).reverse.foldl advance place =
        advance (stack.reverse.foldl advance place) name := by
  have nonempty : name.isEmpty = false := List.isEmpty_eq_false_iff.mpr named.1
  have upward : IsStep up := ⟨by decide, by decide, by decide⟩
  rw [follow.eq_def]
  by_cases stays : name = here
  · rw [if_pos stays]
    exact ⟨steps, by simp [advance, stays]⟩
  by_cases back : name = up
  · rw [if_neg stays, if_pos back, back]
    cases stack with
    | nil =>
      cases rooted with
      | false => exact ⟨by simp [upward], rfl⟩
      | true =>
        rw [start rfl]
        exact ⟨by simp, rfl⟩
    | cons top rest =>
      obtain ⟨first, others⟩ := List.forall_mem_cons.mp steps
      by_cases again : top = up
      · simp only [again, if_true] at steps ⊢
        exact ⟨List.forall_mem_cons.mpr ⟨upward, steps⟩, by simp⟩
      -- the name on top led one step down, which is taken back
      · have down : advance (rest.reverse.foldl advance place) top =
            rest.reverse.foldl advance place ++ [top] := by
          simp [advance, first.nonempty, first.moves, again]
        simp only [again, if_false, List.reverse_cons, List.foldl_append, List.foldl_cons, List.foldl_nil,
          down]
        exact ⟨others, by simp [advance, up, here]⟩
  · rw [if_neg stays, if_neg back]
    refine ⟨List.forall_mem_cons.mpr ⟨⟨named.1, named.2, stays⟩, steps⟩, ?_⟩
    rw [List.reverse_cons, List.foldl_append, List.foldl_cons, List.foldl_nil]

/-- The names of a cleaned path lead away, to where the names of the path lead. -/
theorem foldl_advance_cleanNames (rooted : Bool) {place : List Bytes}
    (start : rooted = true → place = []) {ns : List Bytes} (named : ∀ n ∈ ns, n ≠ [] ∧ slash ∉ n) :
    (∀ n ∈ cleanNames rooted ns, IsStep n) ∧
      (cleanNames rooted ns).foldl advance place = ns.foldl advance place := by
  have run (ns stack : List Bytes) (named : ∀ n ∈ ns, n ≠ [] ∧ slash ∉ n) (steps : ∀ n ∈ stack, IsStep n) :
      (∀ n ∈ ns.foldl (follow rooted) stack, IsStep n) ∧
        (ns.foldl (follow rooted) stack).reverse.foldl advance place =
          ns.foldl advance (stack.reverse.foldl advance place) := by
    induction ns generalizing stack with
    | nil => exact ⟨steps, rfl⟩
    | cons name ns ih =>
      rw [List.forall_mem_cons] at named
      obtain ⟨still, same⟩ := foldl_advance_follow start steps named.1
      rw [List.foldl_cons, List.foldl_cons, ← same]
      exact ih _ named.2 still
  obtain ⟨steps, same⟩ := run ns [] named (by simp)
  exact ⟨fun n mem => steps n (List.mem_reverse.mp mem), same⟩

/-- The place that a path aims at, as seen from `current`. -/
def aim (current : List Bytes) (p : Bytes) : List Bytes :=
  (Bytes.splitOn slash p).foldl advance (if isAbsolute p then [] else current)

theorem aim_names (current : List Bytes) (p : Bytes) :
    aim current p = (names p).foldl advance (if isAbsolute p then [] else current) :=
  (foldl_advance_filter _ _).symm

theorem names_join_steps {ns : List Bytes} (steps : ∀ n ∈ ns, IsStep n) :
    names (Bytes.join [slash] ns) = ns := by
  rw [names]
  cases ns with
  | nil => rfl
  | cons n ns =>
    rw [Bytes.splitOn_join (List.cons_ne_nil n ns) fun n mem => (steps n mem).whole]
    exact List.filter_eq_self.mpr fun n mem => by simp [(steps n mem).nonempty]

theorem isAbsolute_ofNames {rooted : Bool} {ns : List Bytes} (steps : ∀ n ∈ ns, IsStep n) :
    isAbsolute (ofNames rooted ns) = rooted := by
  cases rooted with
  | true => rfl
  | false =>
    rcases ns with _ | ⟨_ | ⟨c, n⟩, ns⟩
    · rfl
    · exact absurd rfl (steps [] (by simp)).nonempty
    · have other : c ≠ slash := by
        rintro rfl
        exact (steps _ List.mem_cons_self).whole (by simp)
      cases ns <;> simp [ofNames, isAbsolute, Bytes.join, List.intercalate, other]

/-- A cleaned path has the same aim. -/
theorem aim_clean (current : List Bytes) (p : Bytes) : aim current (clean p) = aim current p := by
  have start (rooted : isAbsolute p = true) : (if isAbsolute p then [] else current) = [] := if_pos rooted
  obtain ⟨steps, same⟩ :=
    foldl_advance_cleanNames (isAbsolute p) start fun _ => isName_of_mem_names (p := p)
  have listed : (names (clean p)).foldl advance (if isAbsolute p then [] else current) =
      (cleanNames (isAbsolute p) (names p)).foldl advance (if isAbsolute p then [] else current) := by
    cases rooted : isAbsolute p with
    | true =>
      rw [rooted] at steps
      have joined := names_append [] (Bytes.join [slash] (cleanNames true (names p)))
      rw [names_join_steps steps] at joined
      rw [clean, rooted, ofNames, if_pos rfl]
      exact congrArg _ joined
    | false =>
      rw [rooted] at steps
      rw [clean, rooted, ofNames, if_neg Bool.false_ne_true]
      cases empty : cleanNames false (names p) with
      | nil => rfl
      | cons n ns =>
        rw [empty] at steps
        rw [List.isEmpty_cons, if_neg Bool.false_ne_true, if_neg Bool.false_ne_true,
          names_join_steps steps]
  rw [aim_names, aim_names, clean, isAbsolute_ofNames steps, ← clean, listed, same]

/-- A path aims at its last name, from where the rest of it aims. -/
theorem aim_split (current : List Bytes) (p : Bytes) :
    aim current p = advance (aim current (dir p)) (split p).2 := by
  rw [dir, aim_clean]
  conv_lhs => rw [← split_append p]
  have last := Bytes.splitOn_of_not_mem (slash_not_mem_split p)
  rcases split_front p with empty | ⟨front, ends⟩
  · have relative : isAbsolute (split p).2 = false := by
      cases name : (split p).2 with
      | nil => rfl
      | cons c rest =>
        rw [isAbsolute, List.head?_cons, beq_eq_false_iff_ne, ne_eq, Option.some.injEq]
        rintro rfl
        exact slash_not_mem_split p (by rw [name]; simp)
    rw [empty, List.nil_append, aim, last, relative]
    rfl
  · have start : isAbsolute (front ++ slash :: (split p).2) = isAbsolute (front ++ [slash]) := by
      cases front <;> rfl
    rw [ends, List.append_assoc, List.singleton_append, aim, Bytes.splitOn_append, last, aim,
      Bytes.splitOn_append, start, List.foldl_append, List.foldl_append]
    rfl

theorem clean_ne_nil (p : Bytes) : clean p ≠ [] := by
  obtain ⟨steps, -⟩ :=
    foldl_advance_cleanNames (isAbsolute p) (fun _ => rfl) fun _ => isName_of_mem_names (p := p)
  rw [clean, ofNames]
  split_ifs with rooted empty
  · exact List.cons_ne_nil _ _
  · exact List.cons_ne_nil _ _
  · intro nothing
    have listed := names_join_steps steps
    rw [nothing] at listed
    exact empty (by rw [← listed]; rfl)

/-- A file in the directory of a path is next to what the path aims at. -/
theorem aim_inDirectory (current : List Bytes) (p : Bytes) {name : Bytes} (named : IsName name) :
    aim current (inDirectory (dir p) name) = aim current (dir p) ++ [name] := by
  have last := Bytes.splitOn_of_not_mem named.whole
  obtain ⟨c, rest, start⟩ := List.exists_cons_of_ne_nil (clean_ne_nil (split p).1)
  rw [← dir] at start
  rw [inDirectory]
  split_ifs with ends
  · obtain ⟨front, ends⟩ := List.getLast?_eq_some_iff.mp ends
    have same : isAbsolute (dir p ++ name) = isAbsolute (dir p) := by rw [start]; rfl
    rw [aim, same, aim, ends, List.append_assoc, List.singleton_append, Bytes.splitOn_append, last,
      Bytes.splitOn_append, List.foldl_append, List.foldl_append, ← advance_name named]
    rfl
  · have same : isAbsolute (dir p ++ slash :: name) = isAbsolute (dir p) := by rw [start]; rfl
    rw [List.append_assoc, List.singleton_append, aim, same, aim, Bytes.splitOn_append, last,
      List.foldl_append, List.foldl_cons, List.foldl_nil, advance_name named]

/-- A longer name than its own is not what a path aims at. -/
theorem aim_ne_longer (current : List Bytes) {p name : Bytes} (longer : (base p).length < name.length) :
    aim current p ≠ aim current (dir p) ++ [name] := by
  intro same
  rw [aim_split] at same
  generalize aim current (dir p) = place at same
  have size := congrArg List.length same
  rw [advance] at same size
  split_ifs at same size with stays back
  · simp at size
  · simp only [List.length_dropLast, List.length_append, List.length_singleton] at size
    omega
  · obtain ⟨-, last⟩ := List.append_inj' same rfl
    simp only [Bool.or_eq_true, List.isEmpty_iff, not_or] at stays
    rw [base_eq_split stays.1, List.singleton_inj.mp last] at longer
    exact absurd longer (lt_irrefl _)

theorem splitOn_split (p : Bytes) : ∃ front, Bytes.splitOn slash p = front ++ [(split p).2] := by
  have last := Bytes.splitOn_of_not_mem (slash_not_mem_split p)
  rcases split_front p with empty | ⟨front, ends⟩
  · refine ⟨[], ?_⟩
    conv_lhs => rw [← split_append p, empty]
    exact last
  · refine ⟨Bytes.splitOn slash front, ?_⟩
    conv_lhs => rw [← split_append p, ends, List.append_assoc, List.singleton_append, Bytes.splitOn_append]
    rw [last]

end Path

namespace FileTree
open DomTemplate.Path
variable {t : FileTree} {root root' : Folder} {place q names more : List Bytes} {name path : Bytes}

theorem follow_append (names more : List Bytes) :
    follow root place (names ++ more) = (follow root place names).bind (follow root · more) := by
  induction names generalizing place with
  | nil => rfl
  | cons name names ih =>
    rw [List.cons_append, follow, follow]
    cases root.get? place with
    | none => rfl
    | some e =>
      cases e with
      | file content => rfl
      | folder inner =>
        dsimp only
        split_ifs <;> first | rfl | exact ih

theorem follow_append_ok : follow root place (names ++ more) = .ok q ↔
    ∃ p, follow root place names = .ok p ∧ follow root p more = .ok q := by
  rw [follow_append]
  cases follow root place names <;> simp [Except.bind]

/-- What leads somewhere starts in a folder. -/
theorem follow_cons_ok (h : follow root place (name :: names) = .ok q) :
    root.at? place = some none ∧ follow root (advance place name) names = .ok q := by
  rw [follow] at h
  cases found : root.get? place with
  | none =>
    rw [found] at h
    cases h
  | some e =>
    rw [found] at h
    cases e with
    | file content => cases h
    | folder inner =>
      refine ⟨Folder.at?_eq_folder.mpr ⟨inner, found⟩, ?_⟩
      dsimp only at h
      rw [advance]
      split_ifs at h ⊢ <;> exact h

theorem follow_aim (h : follow root place names = .ok q) : q = names.foldl advance place := by
  induction names generalizing place with
  | nil => exact (Except.ok.inj h).symm
  | cons name names ih => exact ih (follow_cons_ok h).2

/-- What can be followed can be followed where there are more folders. -/
theorem follow_mono (folders : ∀ q, root.at? q = some none → root'.at? q = some none)
    (h : follow root place names = .ok q) : follow root' place names = .ok q := by
  induction names generalizing place with
  | nil => exact h
  | cons name names ih =>
    obtain ⟨inner, there⟩ := Folder.at?_eq_folder.mp (follow_cons_ok h).1
    obtain ⟨inner', there'⟩ := Folder.at?_eq_folder.mp (folders place (follow_cons_ok h).1)
    rw [follow, there] at h
    rw [follow, there']
    dsimp only at h ⊢
    split_ifs at h ⊢ <;> exact ih h

theorem locate_mono {root' : Folder} (folders : ∀ q, t.root.at? q = some none → root'.at? q = some none)
    (h : t.locate path = .ok q) : locate { t with root := root' } path = .ok q := by
  rw [locate] at h ⊢
  split_ifs at h ⊢ <;> exact follow_mono folders h

theorem locate_aim (h : t.locate path = .ok q) : q = aim t.current path := by
  rw [locate] at h
  split_ifs at h with null empty long rooted
  · rw [follow_aim h, aim, if_pos rooted]
  · rw [follow_aim h, aim, if_neg rooted]

/-- What can be located leads there by its names, within the limits of paths. -/
theorem locate_ok_iff : t.locate path = .ok q ↔
    nul ∉ path ∧ path ≠ [] ∧ path.length ≤ longestPath ∧
      follow t.root (if isAbsolute path then [] else t.current) (Bytes.splitOn slash path) = .ok q := by
  have null : path.any (· == nul) = true ↔ nul ∈ path := by simp
  rw [locate]
  by_cases forbidden : nul ∈ path
  · simp [null.mpr forbidden, forbidden]
  by_cases empty : path = []
  · simp [empty]
  by_cases long : longestPath < path.length
  · simp [mt null.mp forbidden, empty, long, Nat.not_le_of_lt long]
  · simp [mt null.mp forbidden, forbidden, empty, long, Nat.le_of_not_lt long]

/-- The last name of a path is in a folder. -/
theorem locate_last (h : t.locate path = .ok q) :
    ∃ place, t.root.at? place = some none ∧ q = advance place (split path).2 := by
  obtain ⟨-, -, -, found⟩ := locate_ok_iff.mp h
  obtain ⟨front, pieces⟩ := splitOn_split path
  rw [pieces] at found
  obtain ⟨place, -, last⟩ := follow_append_ok.mp found
  exact ⟨place, (follow_cons_ok last).1, follow_aim last⟩

theorem folder_dropLast (h : root.at? place = some none) : root.at? place.dropLast = some none := by
  rcases List.eq_nil_or_concat place with rfl | ⟨front, last, rfl⟩
  · exact h
  · rw [List.concat_eq_append] at h ⊢
    rw [List.dropLast_concat]
    exact Folder.at?_front (by rw [h]; exact Option.some_ne_none _)

/-- A path that does not lead to a folder leads to an entry of one. -/
theorem locate_entry (h : t.locate path = .ok q) (other : t.root.at? q ≠ some none) :
    ∃ place, t.root.at? place = some none ∧ IsName (base path) ∧ q = place ++ [base path] := by
  obtain ⟨place, folder, rfl⟩ := locate_last h
  have whole := slash_not_mem_split path
  rw [advance] at other ⊢
  split_ifs at other ⊢ with stays back
  · exact absurd folder other
  · exact absurd (folder_dropLast folder) other
  · simp only [Bool.or_eq_true, List.isEmpty_iff, beq_iff_eq, not_or] at stays
    rw [base_eq_split stays.1]
    exact ⟨place, folder, ⟨stays.1, whole, stays.2, back⟩, rfl⟩

/-- A slash at the end of a path asks for a folder. -/
theorem locate_slash (h : t.locate (path ++ [slash]) = .ok q) (nonempty : path ≠ []) :
    t.locate path = .ok q ∧ t.root.at? q = some none := by
  obtain ⟨null, -, short, found⟩ := locate_ok_iff.mp h
  have start : isAbsolute (path ++ [slash]) = isAbsolute path := by
    obtain ⟨c, rest, rfl⟩ := List.exists_cons_of_ne_nil nonempty
    rfl
  rw [start, Bytes.splitOn_append] at found
  obtain ⟨p, front, last⟩ := follow_append_ok.mp found
  obtain rfl : q = p := follow_aim last
  rw [List.mem_append, not_or] at null
  rw [List.length_append] at short
  exact ⟨locate_ok_iff.mpr ⟨null.1, nonempty, by omega, front⟩, (follow_cons_ok last).1⟩

theorem locate_bare (h : t.locate path = .ok q) (nonempty : Bytes.dropWhileRight (· == slash) path ≠ []) :
    t.locate (Bytes.dropWhileRight (· == slash) path) = .ok q := by
  induction path using List.reverseRecOn with
  | nil => exact absurd rfl nonempty
  | append_singleton path c ih =>
    have last : Bytes.dropWhileRight (· == slash) (path ++ [c]) =
        if c = slash then Bytes.dropWhileRight (· == slash) path else path ++ [c] := by
      by_cases same : c = slash <;> simp [Bytes.dropWhileRight, same]
    rw [last] at nonempty ⊢
    split_ifs at nonempty ⊢ with same
    · subst same
      refine ih (locate_slash h ?_).1 nonempty
      rintro rfl
      exact nonempty rfl
    · exact h

/-- The directory of a path that can be located is there. -/
theorem locate_parent (h : t.locate path = .ok q) (nonempty : (split path).1 ≠ []) :
    ∃ place, t.locate (split path).1 = .ok place ∧ t.root.at? place = some none := by
  obtain ⟨front, ends⟩ := (split_front path).resolve_left nonempty
  have whole := split_append path
  rw [ends, List.append_assoc, List.singleton_append] at whole
  obtain ⟨null, -, short, found⟩ := locate_ok_iff.mp h
  have start : isAbsolute path = isAbsolute (front ++ [slash]) := by
    rw [← whole]
    cases front <;> rfl
  have last := Bytes.splitOn_of_not_mem (slash_not_mem_split path)
  rw [start, ← whole, Bytes.splitOn_append, last] at found
  obtain ⟨p, there, name⟩ := follow_append_ok.mp found
  obtain ⟨folder, -⟩ := follow_cons_ok name
  obtain ⟨inner, entry⟩ := Folder.at?_eq_folder.mp folder
  rw [← whole, List.mem_append, not_or] at null
  rw [← whole, List.length_append, List.length_cons] at short
  refine ⟨p, ?_, folder⟩
  rw [ends, locate_ok_iff, Bytes.splitOn_append, List.mem_append, List.length_append, List.length_singleton]
  refine ⟨not_or.mpr ⟨null.1, by decide⟩, by simp, by omega, follow_append_ok.mpr ⟨p, there, ?_⟩⟩
  rw [Bytes.splitOn, follow, entry]
  rfl

end FileTree
end DomTemplate
