import Liaozhai.Net.WorldList

/-!
# The columns of the displayed list

The name column is one wider than the most bytes a name takes, and names are padded by
characters. The numbers before the names are not padded.
-/

namespace Liaozhai.Net.WorldList

open Constants RustString Worlds
set_option autoImplicit false

/-- The descriptions of all rows start in one column. -/
def OneColumn (worlds : List WorldMetadata) : Prop :=
  ∃ column, ∀ (i : Nat) (world : WorldMetadata), worlds[i]? = some world → ∃ before,
    (rowTexts worlds)[i]? = some (before ++ world.shortDescription) ∧ Unbroken before ∧
      before.length = column

/-- In the rows of the longest names one space stands between name and description. -/
def OneSpace (worlds : List WorldMetadata) : Prop :=
  ∀ (i : Nat) (world : WorldMetadata), worlds[i]? = some world →
    (∀ other ∈ worlds, other.name.length ≤ world.name.length) →
    (rowTexts worlds)[i]? =
      some ("  " ++ toString (i + 1) ++ ". " ++ world.name ++ " " ++ world.shortDescription)

/-- The list is one row after another, and they line up. Lengths and columns count
characters. -/
structure LinesUp (worlds : List WorldMetadata) : Prop where
  rows : formatWorldList worlds =
    some (worldsHeader ++ "\r\n" ++ String.join ((rowTexts worlds).map fun row => row ++ "\r\n"))
  columns : OneColumn worlds
  oneSpace : OneSpace worlds

section Width
variable {worlds : List WorldMetadata} {world : WorldMetadata}

theorem length_name_lt (h : world ∈ worlds) : world.name.length < nameWidth worlds := by
  have hpos : 0 < nameWidth worlds := Nat.succ_pos _
  have hbytes : world.name.utf8ByteSize ≤ nameWidth worlds - 1 := by
    apply nameWidth_le.mp _ world h
    omega
  have hchars := Utf8Lossy.length_le_utf8ByteSize world.name
  omega

theorem length_rowStart (h : world ∈ worlds) (num : Nat) :
    (rowStart (nameWidth worlds) world num).length =
      4 + (toString num).length + nameWidth worlds := by
  have hname := length_name_lt h
  have hpad := length_padded world.name (nameWidth worlds)
  have hopen : "  ".length = 2 := rfl
  have hclose : ". ".length = 2 := rfl
  simp only [rowStart, String.length_append]
  omega

theorem getElem?_rowTexts_eq {i : Nat} (h : worlds[i]? = some world) (before : String) :
    (rowTexts worlds)[i]? = some (before ++ world.shortDescription) ↔
      before = rowStart (nameWidth worlds) world (i + 1) := by
  rw [getElem?_rowTexts h, Option.some_inj]
  change rowStart (nameWidth worlds) world (i + 1) ++ world.shortDescription = _ ↔ _
  rw [String.append_left_inj, eq_comm]

end Width

/-! ### The column of the descriptions -/

theorem length_toString_eq_one {n : Nat} : (toString n).length = 1 ↔ n < 10 := by
  have hle := @Nat.length_repr_le_iff n 1 (by omega)
  have hpos := @Nat.length_repr_pos n
  rw [Nat.toString_eq_repr]
  omega

/-- The descriptions are in one column if and only if all numbers have one digit. -/
theorem oneColumn_iff {worlds : List WorldMetadata} (hne : worlds ≠ [])
    (hunbroken : ∀ world ∈ worlds, Unbroken world.name) :
    OneColumn worlds ↔ worlds.length < 10 := by
  have hpos := List.length_pos_iff.mpr hne
  constructor
  · intro hcolumns
    obtain ⟨column, hcolumn⟩ := hcolumns
    have hdigits : ∀ i, i < worlds.length →
        column = 4 + (toString (i + 1)).length + nameWidth worlds := by
      intro i hi
      have hworld := List.getElem?_eq_getElem hi
      obtain ⟨before, hrow, _, hlen⟩ := hcolumn i worlds[i] hworld
      rw [(getElem?_rowTexts_eq hworld before).mp hrow] at hlen
      rw [← hlen]
      exact length_rowStart (List.getElem_mem hi) (i + 1)
    have hfirst := hdigits 0 hpos
    have hlast := hdigits (worlds.length - 1) (by omega)
    have hone : (toString (0 + 1)).length = 1 := length_toString_eq_one.mpr (by omega)
    have hsame : (toString (worlds.length - 1 + 1)).length = 1 := by omega
    have hlt := length_toString_eq_one.mp hsame
    omega
  · intro hlen
    refine ⟨5 + nameWidth worlds, ?_⟩
    intro i world hworld
    obtain ⟨hi, _⟩ := List.getElem?_eq_some_iff.mp hworld
    have hmem := List.mem_of_getElem? hworld
    refine ⟨rowStart (nameWidth worlds) world (i + 1), ?_, ?_, ?_⟩
    · exact (getElem?_rowTexts_eq hworld _).mpr rfl
    · exact unbroken_rowStart.mpr (hunbroken world hmem)
    · have hone : (toString (i + 1)).length = 1 := length_toString_eq_one.mpr (by omega)
      rw [length_rowStart hmem, hone]

/-! ### The space after the longest name -/

/-- A name is followed by one space if and only if the column is one wider than it. -/
theorem getElem?_rowTexts_oneSpace {worlds : List WorldMetadata} {world : WorldMetadata} {i : Nat}
    (h : worlds[i]? = some world) :
    (rowTexts worlds)[i]? =
        some ("  " ++ toString (i + 1) ++ ". " ++ world.name ++ " " ++ world.shortDescription) ↔
      nameWidth worlds = world.name.length + 1 := by
  have hname := length_name_lt (List.mem_of_getElem? h)
  rw [getElem?_rowTexts_eq h, rowStart, padded]
  constructor
  · intro hrow
    have hlen := congrArg String.length hrow
    simp only [String.length_append, String.length_ofList, List.length_replicate] at hlen
    have hspace : " ".length = 1 := rfl
    omega
  · intro hwidth
    have hone : nameWidth worlds - world.name.length = 1 := by omega
    rw [hone, ← String.append_assoc]
    rfl

/-- One space follows the longest names if and only if no name has more bytes than one of
them has characters. -/
theorem oneSpace_iff {worlds : List WorldMetadata} (hne : worlds ≠ []) :
    OneSpace worlds ↔
      ∃ longest ∈ worlds, ∀ world ∈ worlds, world.name.utf8ByteSize ≤ longest.name.length := by
  constructor
  · intro hspace
    have hmem : worlds.maxOn (fun w => w.name.length) hne ∈ worlds := List.maxOn_mem
    obtain ⟨i, hi⟩ := List.mem_iff_getElem?.mp hmem
    refine ⟨_, hmem, nameWidth_le.mp ?_⟩
    have hrow := hspace i _ hi (fun other hother =>
      List.le_apply_maxOn_of_mem (f := fun w : WorldMetadata => w.name.length) hother)
    exact Nat.le_of_eq ((getElem?_rowTexts_oneSpace hi).mp hrow)
  · intro hlongest i world hworld hmax
    obtain ⟨longest, hmem, hbytes⟩ := hlongest
    apply (getElem?_rowTexts_oneSpace hworld).mpr
    have hname := length_name_lt (List.mem_of_getElem? hworld)
    have hwidth := nameWidth_le.mpr hbytes
    have hle := hmax longest hmem
    omega

/-- The list is shown and lines up if and only if it has fewer than ten worlds, no name
takes more bytes than the longest has characters, and none is too long to be padded. -/
theorem linesUp_iff {worlds : List WorldMetadata} (hne : worlds ≠ [])
    (hunbroken : ∀ world ∈ worlds, Unbroken world.name) :
    LinesUp worlds ↔
      worlds.length < 10 ∧
        (∃ longest ∈ worlds, ∀ world ∈ worlds,
          world.name.utf8ByteSize ≤ longest.name.length) ∧
        ∀ world ∈ worlds, world.name.utf8ByteSize ≤ 65534 := by
  rw [← oneColumn_iff hne hunbroken, ← oneSpace_iff hne]
  constructor
  · intro hlines
    exact ⟨hlines.columns, hlines.oneSpace, (formatWorldList_eq_some.mp hlines.rows).1⟩
  · intro hall
    obtain ⟨hcolumns, hspace, hnarrow⟩ := hall
    exact ⟨formatWorldList_of_narrow hnarrow, hcolumns, hspace⟩

def testWorlds : List WorldMetadata := [
  ⟨"studio-dusk", "The Studio at Dusk", "A small interior, warmly lit."⟩,
  ⟨"mountain-trail", "The Mountain Trail", "A path winding into mist."⟩,
  ⟨"library-echoes", "The Library of Echoes", "A reading room of recursive proportions."⟩]

theorem linesUp_testWorlds : LinesUp testWorlds := by
  have hunbroken : ∀ world ∈ testWorlds, Unbroken world.name := by decide +kernel
  apply (linesUp_iff (List.cons_ne_nil _ _) hunbroken).mpr
  refine ⟨by decide, ⟨testWorlds[2], List.getElem_mem _, ?_⟩, ?_⟩
  · decide +kernel
  · decide +kernel

/-- Ten rooms of one size. -/
def tenRooms : List WorldMetadata :=
  (List.range 10).map fun i => ⟨"room-" ++ toString i, "Room " ++ toString i, "A room."⟩

/-- A name with a letter of two bytes. -/
def teaHouse : List WorldMetadata := [⟨"tea-house", "Maison de thé", "A quiet room."⟩]

/-- The tenth number moves its description, and a second byte widens the column. -/
theorem tenRooms_teaHouse :
    (tenRooms ≠ [] ∧ (∀ world ∈ tenRooms, Unbroken world.name) ∧ ¬ LinesUp tenRooms) ∧
      teaHouse ≠ [] ∧ (∀ world ∈ teaHouse, Unbroken world.name) ∧ ¬ LinesUp teaHouse := by
  have hrooms : ∀ world ∈ tenRooms, Unbroken world.name := by decide +kernel
  have hhouse : ∀ world ∈ teaHouse, Unbroken world.name := by decide +kernel
  refine ⟨⟨List.cons_ne_nil _ _, hrooms, ?_⟩, List.cons_ne_nil _ _, hhouse, ?_⟩
  · intro hlines
    have hlen := (oneColumn_iff (List.cons_ne_nil _ _) hrooms).mp hlines.columns
    exact absurd hlen (by decide)
  · intro hlines
    have hlongest := (oneSpace_iff (List.cons_ne_nil _ _)).mp hlines.oneSpace
    exact absurd hlongest (by decide +kernel)

end Liaozhai.Net.WorldList
