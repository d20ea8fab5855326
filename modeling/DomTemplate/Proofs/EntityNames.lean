import DomTemplate.Markup.Entity

/-! The names of the characters that are escaped in markup. They stand for one character each, as
the table of all names has it. -/

namespace DomTemplate.Markup.Entity
open Ascii

/-- The entry of a table that has the name. -/
def named? (name : String) (table : NameTable) : Option (String × List Nat) :=
  table.find? fun entry => entry.1 == name

-- The tables are walked a few at a time: comparing names is slow.

theorem named?_ab : ∀ name ∈ ["gt;", "lt;"],
    named? name namesA = none ∧ named? name namesB = none := by decide +kernel

theorem named?_cd : ∀ name ∈ ["gt;", "lt;"],
    named? name namesC = none ∧ named? name namesD = none := by decide +kernel

theorem named?_ef : ∀ name ∈ ["gt;", "lt;"],
    named? name namesE = none ∧ named? name namesF = none := by decide +kernel

theorem named?_ghijk : named? "lt;" namesG = none ∧ named? "lt;" namesH = none ∧
    named? "lt;" namesI = none ∧ named? "lt;" namesJ = none ∧ named? "lt;" namesK = none := by
  decide +kernel

theorem lookup?_eq (name : Bytes) :
    lookup? name = (named? (String.ofList (name.map fun b => Char.ofNat b.toNat)) names).map
      fun entry => entry.2.flatMap CodePoint.encode := rfl

theorem named?_append (name : String) (table more : NameTable) :
    named? name (table ++ more) = (named? name table).or (named? name more) :=
  List.find?_append

theorem lookup?_amp : lookup? [0x61, 0x6D, 0x70, semicolon] = some [amp] := by decide +kernel

theorem lookup?_gt : lookup? [0x67, 0x74, semicolon] = some [gt] := by
  have name : String.ofList ([0x67, 0x74, semicolon].map fun b : UInt8 => Char.ofNat b.toNat) =
      "gt;" := by decide
  have here : named? "gt;" namesG = some ("gt;", [62]) := by decide +kernel
  obtain ⟨a, b⟩ := named?_ab "gt;" List.mem_cons_self
  obtain ⟨c, d⟩ := named?_cd "gt;" List.mem_cons_self
  obtain ⟨e, f⟩ := named?_ef "gt;" List.mem_cons_self
  rw [lookup?_eq, name]
  unfold names
  simp only [named?_append, a, b, c, d, e, f, here, Option.none_or, Option.some_or]
  rfl

theorem lookup?_lt : lookup? [0x6C, 0x74, semicolon] = some [lt] := by
  have name : String.ofList ([0x6C, 0x74, semicolon].map fun b : UInt8 => Char.ofNat b.toNat) =
      "lt;" := by decide
  have here : named? "lt;" namesL = some ("lt;", [60]) := by decide +kernel
  have second : "lt;" ∈ ["gt;", "lt;"] := List.mem_cons_of_mem _ List.mem_cons_self
  obtain ⟨a, b⟩ := named?_ab "lt;" second
  obtain ⟨c, d⟩ := named?_cd "lt;" second
  obtain ⟨e, f⟩ := named?_ef "lt;" second
  obtain ⟨g, h, i, j, k⟩ := named?_ghijk
  rw [lookup?_eq, name]
  unfold names
  simp only [named?_append, a, b, c, d, e, f, g, h, i, j, k, here, Option.none_or, Option.some_or]
  rfl

end DomTemplate.Markup.Entity
