import Mathlib.Data.List.Infix
import Mathlib.Data.List.TakeWhile
import DomTemplate.Path

/-! Absolute paths and their names. A cleaned absolute path is a slash and names with slashes between
them, and the functions on paths are what they should be on names: the directory of a path has all
names but the last, and a path joined to another has the names of both. -/

namespace DomTemplate
open Ascii

namespace Bytes

theorem splitOn_ne_nil (sep : UInt8) (s : Bytes) : splitOn sep s ≠ [] := by
  cases s with
  | nil => exact List.cons_ne_nil _ _
  | cons c s =>
    rw [splitOn]
    split
    · exact List.cons_ne_nil _ _
    · split <;> exact List.cons_ne_nil _ _

theorem splitOn_append (sep : UInt8) (s t : Bytes) :
    splitOn sep (s ++ sep :: t) = splitOn sep s ++ splitOn sep t := by
  induction s with
  | nil => simp [splitOn]
  | cons c s ih =>
    rw [List.cons_append, splitOn, splitOn, ih]
    split
    · rfl
    · cases pieces : splitOn sep s with
      | nil => exact absurd pieces (splitOn_ne_nil sep s)
      | cons piece pieces => rfl

theorem splitOn_of_not_mem {sep : UInt8} {s : Bytes} (absent : sep ∉ s) : splitOn sep s = [s] := by
  induction s with
  | nil => rfl
  | cons c s ih =>
    rw [List.mem_cons, not_or] at absent
    rw [splitOn, if_neg (Ne.symm absent.1), ih absent.2]

/-- What is added without a separator belongs to the last piece. -/
theorem splitOn_extend {sep : UInt8} {t : Bytes} (absent : sep ∉ t) (s : Bytes) :
    ∃ front last, splitOn sep s = front ++ [last] ∧ splitOn sep (s ++ t) = front ++ [last ++ t] := by
  induction s with
  | nil => exact ⟨[], [], rfl, splitOn_of_not_mem absent⟩
  | cons c s ih =>
    obtain ⟨front, last, here, there⟩ := ih
    rw [List.cons_append, splitOn, splitOn, here, there]
    split
    · exact ⟨[] :: front, last, rfl, rfl⟩
    · cases front with
      | nil => exact ⟨[], c :: last, rfl, rfl⟩
      | cons piece front => exact ⟨(c :: piece) :: front, last, rfl, rfl⟩

theorem not_mem_of_mem_splitOn {sep : UInt8} {s piece : Bytes} (mem : piece ∈ splitOn sep s) :
    sep ∉ piece := by
  induction s generalizing piece with
  | nil =>
    rw [List.mem_singleton.mp mem]
    exact List.not_mem_nil
  | cons c s ih =>
    rw [splitOn] at mem
    split at mem
    · rcases List.mem_cons.mp mem with rfl | later
      · exact List.not_mem_nil
      · exact ih later
    · rename_i other
      split at mem
      · rw [List.mem_singleton.mp mem, List.mem_singleton]
        exact Ne.symm other
      · rename_i first rest pieces
        rw [pieces] at ih
        rcases List.mem_cons.mp mem with rfl | later
        · rw [List.mem_cons, not_or]
          exact ⟨Ne.symm other, ih List.mem_cons_self⟩
        · exact ih (List.mem_cons_of_mem _ later)

end Bytes

namespace Path

/-- A name that leads from a folder to one of its entries. -/
structure IsName (name : Bytes) : Prop where
  nonempty : name ≠ []
  whole : slash ∉ name
  forward : name ≠ here ∧ name ≠ up

theorem names_append (p q : Bytes) : names (p ++ slash :: q) = names p ++ names q := by
  rw [names, Bytes.splitOn_append, List.filter_append]
  rfl

theorem names_name {name : Bytes} (h : IsName name) : names name = [name] := by
  rw [names, Bytes.splitOn_of_not_mem h.whole]
  simp [h.nonempty]

/-- The path of a folder with the slash after it. -/
def folderPath (place : List Bytes) : Bytes := slash :: place.flatMap (· ++ [slash])

theorem folderPath_concat (place : List Bytes) (name : Bytes) :
    folderPath (place ++ [name]) = folderPath place ++ name ++ [slash] := by
  simp [folderPath]

theorem ofNames_concat (place : List Bytes) (name : Bytes) :
    ofNames true (place ++ [name]) = folderPath place ++ name := by
  have joined : Bytes.join [slash] (place ++ [name]) = place.flatMap (· ++ [slash]) ++ name := by
    induction place with
    | nil => simp [Bytes.join]
    | cons first place ih =>
      rw [Bytes.join] at ih ⊢
      cases place <;> simp_all [List.intercalate]
  rw [ofNames, if_pos rfl, joined, folderPath, List.cons_append]

theorem names_folderPath {place : List Bytes} (h : ∀ n ∈ place, IsName n) :
    names (folderPath place) = place := by
  have inner : names (place.flatMap (· ++ [slash])) = place := by
    induction place with
    | nil => rfl
    | cons first place ih =>
      rw [List.forall_mem_cons] at h
      rw [List.flatMap_cons, List.append_assoc, List.singleton_append, names_append,
        names_name h.1, ih h.2]
      rfl
  exact (names_append [] _).trans inner

theorem isName_of_mem_names {p name : Bytes} (mem : name ∈ names p) : name ≠ [] ∧ slash ∉ name := by
  rw [names, List.mem_filter] at mem
  exact ⟨by simpa using mem.2, Bytes.not_mem_of_mem_splitOn mem.1⟩

theorem follow_name {name : Bytes} (h : IsName name) (stack : List Bytes) :
    follow true stack name = name :: stack := by
  rw [follow.eq_def, if_neg h.forward.1, if_neg h.forward.2]

/-- The names of a cleaned absolute path lead forward. -/
theorem isName_cleanNames {ns : List Bytes} (h : ∀ n ∈ ns, n ≠ [] ∧ slash ∉ n) :
    ∀ n ∈ cleanNames true ns, IsName n := by
  have step (ns stack : List Bytes) (h : ∀ n ∈ ns, n ≠ [] ∧ slash ∉ n) (kept : ∀ n ∈ stack, IsName n) :
      ∀ n ∈ ns.foldl (follow true) stack, IsName n := by
    induction ns generalizing stack with
    | nil => exact kept
    | cons name ns ih =>
      rw [List.forall_mem_cons] at h
      refine ih _ h.2 ?_
      rw [follow.eq_def]
      by_cases stays : name = here
      · rwa [if_pos stays]
      by_cases back : name = up
      · rw [if_neg stays, if_pos back]
        cases stack with
        | nil => simp
        | cons top rest =>
          rw [List.forall_mem_cons] at kept
          simp only [kept.1.forward.2, if_false]
          exact kept.2
      · rw [if_neg stays, if_neg back]
        exact List.forall_mem_cons.mpr ⟨⟨h.1.1, h.1.2, stays, back⟩, kept⟩
  intro n mem
  exact step ns [] h (by simp) n (List.mem_reverse.mp mem)

theorem cleanNames_concat {ns : List Bytes} {name : Bytes} (h : IsName name) :
    cleanNames true (ns ++ [name]) = cleanNames true ns ++ [name] := by
  rw [cleanNames, List.foldl_concat, follow_name h, List.reverse_cons, cleanNames]

theorem cleanNames_names {place : List Bytes} (h : ∀ n ∈ place, IsName n) :
    cleanNames true place = place := by
  induction place using List.reverseRecOn with
  | nil => rfl
  | append_singleton front last ih =>
    rw [List.forall_mem_append] at h
    rw [cleanNames_concat (h.2 last (by simp)), ih h.1]

/-- A place in a tree: the names that lead there from the root. -/
def IsPlace (place : List Bytes) : Prop := ∀ n ∈ place, IsName n

theorem IsPlace.concat {place : List Bytes} {name : Bytes} :
    IsPlace (place ++ [name]) ↔ IsPlace place ∧ IsName name := by
  rw [IsPlace, List.forall_mem_append, List.forall_mem_singleton]
  rfl

theorem clean_absolute {p : Bytes} (h : isAbsolute p = true) :
    ∃ place, IsPlace place ∧ clean p = ofNames true place := by
  refine ⟨cleanNames true (names p), isName_cleanNames fun n mem => isName_of_mem_names mem, ?_⟩
  rw [clean, h]

theorem isAbsolute_folderPath (place : List Bytes) : isAbsolute (folderPath place) = true := rfl

theorem clean_folderPath {place : List Bytes} (h : IsPlace place) :
    clean (folderPath place) = ofNames true place := by
  rw [clean, isAbsolute_folderPath, names_folderPath h, cleanNames_names h]

section
variable {place : List Bytes} {name : Bytes} (named : IsName name)
include named

theorem split_ofNames : split (ofNames true (place ++ [name])) = (folderPath place, name) := by
  have ends : ∃ front, folderPath place = front ++ [slash] := by
    rcases List.eq_nil_or_concat place with rfl | ⟨front, last, rfl⟩
    · exact ⟨[], rfl⟩
    · rw [List.concat_eq_append]
      exact ⟨_, folderPath_concat front last⟩
  obtain ⟨front, ends⟩ := ends
  have last : (ofNames true (place ++ [name])).reverse.takeWhile (· != slash) = name.reverse := by
    rw [ofNames_concat, ends, List.reverse_append, List.reverse_append, List.takeWhile_append_of_pos]
    · simp
    · intro b mem
      rw [List.mem_reverse] at mem
      simp only [bne_iff_ne]
      rintro rfl
      exact named.whole mem
  rw [split, last, List.reverse_reverse, ofNames_concat]
  simp

theorem dir_ofNames (h : IsPlace place) : dir (ofNames true (place ++ [name])) = ofNames true place := by
  rw [dir, split_ofNames named, clean_folderPath h]

theorem base_ofNames : base (ofNames true (place ++ [name])) = name := by
  have last : Bytes.dropWhileRight (· == slash) (ofNames true (place ++ [name])) =
      ofNames true (place ++ [name]) := by
    obtain ⟨front, b, rfl⟩ := (List.eq_nil_or_concat name).resolve_left named.nonempty
    have other : b ≠ slash := by
      rintro rfl
      exact named.whole (by simp)
    rw [ofNames_concat, Bytes.dropWhileRight, List.concat_eq_append, ← List.append_assoc,
      List.reverse_concat, List.dropWhile_cons_of_neg (by simpa using other), ← List.reverse_concat,
      List.reverse_reverse]
  rw [base, if_neg (by simp [ofNames]), last, split_ofNames named]
  simp [named.nonempty]

theorem join_folderPath (h : IsPlace place) :
    join [folderPath place, name] = ofNames true (place ++ [name]) := by
  have joined : Bytes.join [slash] [folderPath place, name] = folderPath place ++ slash :: name := by
    simp [Bytes.join, List.intercalate]
  have rooted : isAbsolute (folderPath place ++ slash :: name) = true := rfl
  rw [join, List.dropWhile_cons_of_neg (by simp [folderPath])]
  simp only [joined]
  rw [clean, rooted, names_append, names_folderPath h, names_name named, cleanNames_concat named,
    cleanNames_names h]

end

/-- A path that is absolute stays so when others are joined to it. -/
theorem join_absolute {p : Bytes} (h : isAbsolute p = true) (paths : List Bytes) :
    ∃ place, IsPlace place ∧ join (p :: paths) = ofNames true place := by
  have nonempty : p.isEmpty = false := by
    cases p with
    | nil => cases h
    | cons => rfl
  have rooted : isAbsolute (Bytes.join [slash] (p :: paths)) = true := by
    cases p with
    | nil => cases h
    | cons c p => cases paths <;> exact h
  rw [join, List.dropWhile_cons_of_neg (by simp [nonempty])]
  exact clean_absolute rooted

theorem names_join (p : Bytes) {place : List Bytes} (h : IsPlace place) :
    names (Bytes.join [slash] (p :: place)) = names p ++ place := by
  induction place generalizing p with
  | nil => simp [Bytes.join]
  | cons name place ih =>
    rw [IsPlace, List.forall_mem_cons] at h
    have more : Bytes.join [slash] (p :: name :: place) =
        p ++ slash :: Bytes.join [slash] (name :: place) := by
      simp [Bytes.join, List.intercalate]
    rw [more, names_append, ih name h.2, names_name h.1]
    rfl

theorem names_ofNames {place : List Bytes} (h : IsPlace place) : names (ofNames true place) = place := by
  rcases List.eq_nil_or_concat place with rfl | ⟨front, last, rfl⟩
  · rfl
  · rw [List.concat_eq_append] at h ⊢
    have folder := names_folderPath h
    have empty : names [] = [] := rfl
    rwa [folderPath_concat, ← ofNames_concat, names_append, empty, List.append_nil] at folder

theorem clean_ofNames {place : List Bytes} (h : IsPlace place) :
    clean (ofNames true place) = ofNames true place := by
  have rooted : isAbsolute (ofNames true place) = true := rfl
  rw [clean, rooted, names_ofNames h, cleanNames_names h]

/-- The path of a place that is given in two parts. -/
theorem join_place {front back : List Bytes} (h : IsPlace (front ++ back)) :
    join (ofNames true front :: back) = ofNames true (front ++ back) := by
  have rooted : isAbsolute (Bytes.join [slash] (ofNames true front :: back)) = true := by
    cases back <;> rfl
  rw [join, List.dropWhile_cons_of_neg (by simp [ofNames])]
  have parts := List.forall_mem_append.mp h
  simp only []
  rw [clean, rooted, names_join _ parts.2, names_ofNames parts.1, cleanNames_names h]

/-- What a path ends in is the end of its last name. -/
theorem clean_extend {p ending : Bytes} (h : isAbsolute p = true) (whole : slash ∉ ending)
    (long : 3 ≤ ending.length) :
    ∃ place last, IsPlace place ∧ IsName (last ++ ending) ∧
      clean (p ++ ending) = ofNames true (place ++ [last ++ ending]) := by
  obtain ⟨front, last, -, pieces⟩ := Bytes.splitOn_extend whole p
  have size : 3 ≤ (last ++ ending).length := by
    rw [List.length_append]
    omega
  have named : IsName (last ++ ending) := by
    refine ⟨?_, Bytes.not_mem_of_mem_splitOn (s := p ++ ending) (by rw [pieces]; simp), ?_, ?_⟩ <;>
    · intro same
      simp [same, here, up] at size
  have listed : names (p ++ ending) = front.filter (!·.isEmpty) ++ [last ++ ending] := by
    have kept : (last ++ ending).isEmpty = false := List.isEmpty_eq_false_iff.mpr named.nonempty
    rw [names, pieces, List.filter_append, List.filter_singleton, kept]
    rfl
  have rooted : isAbsolute (p ++ ending) = true := by
    cases p with
    | nil => cases h
    | cons c p => exact h
  refine ⟨cleanNames true (front.filter (!·.isEmpty)), last, isName_cleanNames ?_, named, ?_⟩
  · intro n mem
    exact isName_of_mem_names (p := p ++ ending) (by rw [listed]; exact List.mem_append_left _ mem)
  · rw [clean, rooted, listed, cleanNames_concat named]

end Path
end DomTemplate
