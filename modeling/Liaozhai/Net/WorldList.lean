import Liaozhai.Library.Utf8Lossy
import Liaozhai.Net.Lines
import Liaozhai.Net.Session

/-!
# The displayed list of worlds

The list is read by splitting it at line breaks, and a row is chosen by its number.
Validation of the file trims the fields and refuses empty ones, but it lets line
breaks through, and a world with one takes more than one row.
-/

namespace Liaozhai.Net.WorldList

open Auth Codec Constants RustString Worlds
open Lines (Plain complete residue segments)
open Utf8Lossy (asBytes)
set_option autoImplicit false

def Unbroken (text : String) : Prop := '\r' ∉ text.toList ∧ '\n' ∉ text.toList

instance (text : String) : Decidable (Unbroken text) := inferInstanceAs (Decidable (_ ∧ _))

theorem plain_asBytes {text : String} : Plain (asBytes text) ↔ Unbroken text := by
  constructor
  · intro hplain
    obtain ⟨hlf, hcr⟩ := hplain
    exact ⟨fun hmem => hcr (List.mem_flatMap.mpr ⟨'\r', hmem, List.mem_cons_self⟩),
      fun hmem => hlf (List.mem_flatMap.mpr ⟨'\n', hmem, List.mem_cons_self⟩)⟩
  · intro hunbroken
    obtain ⟨hcr, hlf⟩ := hunbroken
    exact ⟨fun hmem => hlf (Utf8Lossy.ascii_mem_asBytes hmem (by decide) rfl),
      fun hmem => hcr (Utf8Lossy.ascii_mem_asBytes hmem (by decide) rfl)⟩

theorem unbroken_append {s t : String} : Unbroken (s ++ t) ↔ Unbroken s ∧ Unbroken t := by
  simp only [Unbroken, String.toList_append, List.mem_append, not_or]
  exact and_and_and_comm

theorem unbroken_toString (n : Nat) : Unbroken (toString n) := by
  constructor
  · intro hmem
    cases isDigit_toString hmem
  · intro hmem
    cases isDigit_toString hmem

theorem unbroken_padded {s : String} {width : Nat} : Unbroken (padded s width) ↔ Unbroken s := by
  have hpad : Unbroken (String.ofList (List.replicate (width - s.length) ' ')) := by
    rw [Unbroken, String.toList_ofList]
    constructor
    · intro hmem
      cases List.eq_of_mem_replicate hmem
    · intro hmem
      cases List.eq_of_mem_replicate hmem
  rw [padded, unbroken_append]
  exact and_iff_left hpad

/-- A row without its line break. -/
def rowText (nameWidth : Nat) (world : WorldMetadata) (num : Nat) : String :=
  "  " ++ toString num ++ ". " ++ padded world.name nameWidth ++ world.shortDescription

def rowTexts (worlds : List WorldMetadata) : List String :=
  worlds.zipIdx.map fun (w, i) => rowText (nameWidth worlds) w (i + 1)

/-- What a row has before its description. -/
def rowStart (nameWidth : Nat) (world : WorldMetadata) (num : Nat) : String :=
  "  " ++ toString num ++ ". " ++ padded world.name nameWidth

theorem unbroken_rowStart {width num : Nat} {world : WorldMetadata} :
    Unbroken (rowStart width world num) ↔ Unbroken world.name := by
  have hnumber : Unbroken ("  " ++ toString num ++ ". ") := by
    rw [unbroken_append, unbroken_append]
    exact ⟨⟨by decide, unbroken_toString num⟩, by decide⟩
  rw [rowStart, unbroken_append, unbroken_padded]
  exact and_iff_right hnumber

theorem unbroken_rowText {width num : Nat} {world : WorldMetadata} :
    Unbroken (rowText width world num) ↔ Unbroken world.name ∧ Unbroken world.shortDescription := by
  change Unbroken (rowStart width world num ++ world.shortDescription) ↔ _
  rw [unbroken_append, unbroken_rowStart]

theorem asBytes_foldl_append (texts : List String) (s : String) :
    asBytes (texts.foldl (fun r s => r ++ s) s) = asBytes s ++ texts.flatMap asBytes := by
  induction texts generalizing s with
  | nil => rw [List.foldl_nil, List.flatMap_nil, List.append_nil]
  | cons text texts ih =>
    rw [List.foldl_cons, ih, Utf8Lossy.asBytes_append, List.flatMap_cons, List.append_assoc]

/-- The list with its rows written one after another. -/
def listText (worlds : List WorldMetadata) : String :=
  worldsHeader ++ "\r\n" ++ String.join ((rowTexts worlds).map fun row => row ++ "\r\n")

/-- The names are short enough for the width of their column to be formatted. -/
def Narrow (worlds : List WorldMetadata) : Prop :=
  ∀ world ∈ worlds, world.name.utf8ByteSize ≤ 65534

instance (worlds : List WorldMetadata) : Decidable (Narrow worlds) :=
  inferInstanceAs (Decidable (∀ world ∈ worlds, _))

theorem foldl_max_le {ns : List Nat} {start n : Nat} :
    ns.foldl max start ≤ n ↔ start ≤ n ∧ ∀ m ∈ ns, m ≤ n := by
  induction ns generalizing start with
  | nil => simp
  | cons m ns ih =>
    rw [List.foldl_cons, ih, Nat.max_le, List.forall_mem_cons, and_assoc]

/-- The name column is as narrow as the byte lengths of the names allow. -/
theorem nameWidth_le {worlds : List WorldMetadata} {n : Nat} :
    nameWidth worlds ≤ n + 1 ↔ ∀ world ∈ worlds, world.name.utf8ByteSize ≤ n := by
  rw [nameWidth, Nat.add_le_add_iff_right, foldl_max_le, List.forall_mem_map]
  exact and_iff_right (Nat.zero_le n)

theorem formatRow_of_le {width : Nat} (h : width ≤ widthMax) (world : WorldMetadata) (num : Nat) :
    formatRow width world num = some (rowText width world num ++ "\r\n") := by
  rw [formatRow, padRight, if_pos h]
  rfl

theorem formatRow_of_lt {width : Nat} (h : widthMax < width) (world : WorldMetadata) (num : Nat) :
    formatRow width world num = none := by
  rw [formatRow, padRight, if_neg (Nat.not_le_of_lt h)]
  rfl

theorem mapM_formatRow {width : Nat} (h : width ≤ widthMax) (rows : List (WorldMetadata × Nat)) :
    (rows.mapM fun (w, i) => formatRow width w (i + 1)) =
      some (rows.map fun (w, i) => rowText width w (i + 1) ++ "\r\n") := by
  induction rows with
  | nil => rfl
  | cons row rows ih =>
    rw [List.mapM_cons, ih]
    dsimp only
    rw [formatRow_of_le h]
    rfl

theorem formatWorldList_of_narrow {worlds : List WorldMetadata} (h : Narrow worlds) :
    formatWorldList worlds = some (listText worlds) := by
  have hwidth : nameWidth worlds ≤ widthMax := nameWidth_le.mpr h
  rw [formatWorldList, mapM_formatRow hwidth, listText, rowTexts, List.map_map]
  rfl

/-- The first row panics, as every other would. -/
theorem formatWorldList_eq_none {worlds : List WorldMetadata} (h : ¬ Narrow worlds) :
    formatWorldList worlds = none := by
  have hwidth : widthMax < nameWidth worlds := Nat.lt_of_not_le (mt nameWidth_le.mp h)
  cases worlds with
  | nil => exact absurd (fun world hworld => absurd hworld List.not_mem_nil) h
  | cons world worlds =>
    rw [formatWorldList, List.zipIdx_cons, List.mapM_cons]
    dsimp only
    rw [formatRow_of_lt hwidth]
    rfl

theorem isSome_formatWorldList {worlds : List WorldMetadata} :
    (formatWorldList worlds).isSome = true ↔ Narrow worlds := by
  by_cases h : Narrow worlds
  · rw [formatWorldList_of_narrow h]
    exact iff_of_true rfl h
  · rw [formatWorldList_eq_none h]
    exact iff_of_false Bool.false_ne_true h

theorem formatWorldList_eq_some {worlds : List WorldMetadata} {list : String} :
    formatWorldList worlds = some list ↔ Narrow worlds ∧ list = listText worlds := by
  by_cases h : Narrow worlds
  · rw [formatWorldList_of_narrow h, Option.some_inj, eq_comm]
    exact (and_iff_right h).symm
  · rw [formatWorldList_eq_none h]
    exact iff_of_false nofun fun hnarrow => h hnarrow.1

/-- The list is the header and the rows, each written with CR LF. -/
theorem asBytes_listText (worlds : List WorldMetadata) :
    asBytes (listText worlds) =
      ((worldsHeader :: rowTexts worlds).map asBytes).flatMap fun text => text ++ [CR, LF] := by
  have hend : asBytes "\r\n" = [CR, LF] := by decide
  have hrow : ∀ row : String, asBytes (row ++ "\r\n") = asBytes row ++ [CR, LF] := by
    intro row
    rw [Utf8Lossy.asBytes_append, hend]
  rw [listText, Utf8Lossy.asBytes_append, hrow, String.join, asBytes_foldl_append,
    List.map_cons, List.flatMap_cons, List.flatMap_map, List.flatMap_map]
  congr 1
  apply List.flatMap_congr
  intro row _
  exact hrow row

theorem unbroken_worldsHeader : Unbroken worldsHeader := by decide

theorem residue_listText (worlds : List WorldMetadata) :
    residue (asBytes (listText worlds)) = [] := by
  rw [residue, asBytes_listText, Lines.split_flatMap_crLf]
  rfl

theorem complete_listText (worlds : List WorldMetadata) :
    complete (asBytes (listText worlds)) =
      asBytes worldsHeader :: ((rowTexts worlds).map asBytes).flatMap segments := by
  rw [complete, asBytes_listText, Lines.split_flatMap_crLf, List.map_cons, List.flatMap_cons,
    Lines.segments_plain (plain_asBytes.mpr unbroken_worldsHeader)]
  rfl

theorem length_rowTexts (worlds : List WorldMetadata) :
    (rowTexts worlds).length = worlds.length := by
  rw [rowTexts, List.length_map, List.length_zipIdx]

theorem getElem?_rowTexts {worlds : List WorldMetadata} {i : Nat} {world : WorldMetadata}
    (h : worlds[i]? = some world) :
    (rowTexts worlds)[i]? = some (rowText (nameWidth worlds) world (i + 1)) := by
  rw [rowTexts, List.getElem?_map, List.getElem?_zipIdx, h]
  rw [Nat.zero_add]
  rfl

theorem prefix_rowText (width num : Nat) (world : WorldMetadata) :
    asBytes ("  " ++ toString num ++ ". ") <+: asBytes (rowText width world num) := by
  rw [rowText, Utf8Lossy.asBytes_append (_ ++ padded _ _), Utf8Lossy.asBytes_append _ (padded _ _),
    List.append_assoc]
  exact List.prefix_append _ _

theorem name_infix_rowText (width num : Nat) (world : WorldMetadata) :
    asBytes world.name <:+: asBytes (rowText width world num) := by
  have hname : asBytes world.name <+: asBytes (padded world.name width) := by
    rw [padded, Utf8Lossy.asBytes_append]
    exact List.prefix_append _ _
  rw [rowText, Utf8Lossy.asBytes_append, Utf8Lossy.asBytes_append _ (padded _ _)]
  exact hname.isInfix.trans (List.infix_append _ _ _)

theorem short_suffix_rowText (width num : Nat) (world : WorldMetadata) :
    asBytes world.shortDescription <:+ asBytes (rowText width world num) := by
  rw [rowText, Utf8Lossy.asBytes_append]
  exact List.suffix_append _ _

/-! ### Selection by number -/

theorem toString_ne {n : Nat} {text : String} {c : Char} (hc : c ∈ text.toList)
    (hdigit : c.isDigit = false) : toString n ≠ text := by
  intro heq
  rw [← heq] at hc
  rw [isDigit_toString hc] at hdigit
  cases hdigit

theorem isSessionTerminator_toString (n : Nat) : isSessionTerminator (toString n) = false := by
  rw [isSessionTerminator, trim_toString, toAsciiLowercase_toString, decide_eq_false_iff_not]
  simp only [List.mem_cons, List.not_mem_nil, or_false, not_or]
  exact ⟨toString_ne (c := 'q') (by decide) rfl, toString_ne (c := 'e') (by decide) rfl,
    toString_ne (c := 'b') (by decide) rfl, toString_ne (c := 'd') (by decide) rfl⟩

theorem toString_ne_empty (n : Nat) : toString n ≠ "" := by
  intro hempty
  have hnil := congrArg String.toList hempty
  rw [Nat.toString_eq_ofList_toDigits, String.toList_ofList] at hnil
  exact Nat.toDigits_ne_nil hnil

/-- A number on the list, entered at the prompt, selects the world at its position. -/
theorem handleInput_toString {session : Session} {account : Account} {n : Nat}
    {world : WorldMetadata} (hstate : session.state = .worldSelection account)
    (hn : n ≤ usizeMax) (hworld : session.registry.getByPosition n = some world) :
    session.handleInput (toString n) =
      .disconnect ("\r\n" ++ replace worldSelectedTemplate "{world}" world.name) := by
  rw [Session.handleInput, hstate]
  simp only [Session.handleWorldSelectionInput, trim_toString, isSessionTerminator_toString,
    toString_ne_empty, parseUsize_toString hn, hworld]
  rfl

/-- One row for each world with its number, name and description, and nothing else; and
the number selects the world. -/
structure MatchesSelection (registry : WorldRegistry) : Prop where
  rows : ∃ list rows, formatWorldList registry.worlds = some list ∧
    complete (asBytes list) = asBytes worldsHeader :: rows ∧
      residue (asBytes list) = [] ∧ rows.length = registry.len ∧
      ∀ i world, registry.worlds[i]? = some world → ∃ row, rows[i]? = some row ∧
        asBytes ("  " ++ toString (i + 1) ++ ". ") <+: row ∧ asBytes world.name <:+: row ∧
        asBytes world.shortDescription <:+: row
  selects : ∀ i world account, registry.worlds[i]? = some world →
    parseUsize (toString (i + 1)) = some (i + 1) ∧
      registry.getByPosition (i + 1) = some world ∧
      Session.handleInput ⟨.worldSelection account, registry⟩ (toString (i + 1)) =
        .disconnect ("\r\n" ++ replace worldSelectedTemplate "{world}" world.name)

variable {fromStr : String → Except String WorldsFile} {path : String}
  {content : Except String String} {registry : WorldRegistry}

theorem plain_rowTexts (worlds : List WorldMetadata) :
    (∀ row ∈ (rowTexts worlds).map asBytes, Plain row) ↔
      ∀ world ∈ worlds, Unbroken world.name ∧ Unbroken world.shortDescription := by
  constructor
  · intro hplain world hworld
    obtain ⟨i, hi⟩ := List.mem_iff_getElem?.mp hworld
    have hrow := hplain _ (List.mem_map_of_mem (List.mem_of_getElem? (getElem?_rowTexts hi)))
    exact unbroken_rowText.mp (plain_asBytes.mp hrow)
  · intro hunbroken row hrow
    obtain ⟨text, htext, rfl⟩ := List.mem_map.mp hrow
    obtain ⟨⟨world, i⟩, hworld, rfl⟩ := List.mem_map.mp htext
    apply plain_asBytes.mpr
    apply unbroken_rowText.mpr
    exact hunbroken world (List.fst_mem_of_mem_zipIdx hworld)

/-- The list of a loaded registry is shown and reads back if and only if no name and no
description has a line break and no name is too long to be padded. -/
theorem matchesSelection_iff (h : WorldRegistry.loadFromToml fromStr path content = .ok registry) :
    MatchesSelection registry ↔
      (∀ world ∈ registry.worlds, Unbroken world.name ∧ Unbroken world.shortDescription) ∧
        ∀ world ∈ registry.worlds, world.name.utf8ByteSize ≤ 65534 := by
  rw [← plain_rowTexts]
  constructor
  · intro hmatches
    obtain ⟨list, rows, hlist, hlines, _, hlen, _⟩ := hmatches.rows
    obtain ⟨hnarrow, rfl⟩ := formatWorldList_eq_some.mp hlist
    refine ⟨?_, hnarrow⟩
    rw [complete_listText] at hlines
    obtain ⟨_, hrows⟩ := List.cons.inj hlines
    apply Lines.plain_of_length_flatMap_segments
    rw [hrows, hlen, List.length_map, length_rowTexts]
    rfl
  · rintro ⟨hplain, hnarrow⟩
    refine ⟨⟨listText registry.worlds, (rowTexts registry.worlds).map asBytes,
      formatWorldList_of_narrow hnarrow, ?_, ?_, ?_, ?_⟩, ?_⟩
    · rw [complete_listText, Lines.flatMap_segments_plain hplain]
    · exact residue_listText registry.worlds
    · rw [List.length_map, length_rowTexts]
      rfl
    · intro i world hworld
      refine ⟨asBytes (rowText (nameWidth registry.worlds) world (i + 1)), ?_,
        prefix_rowText _ _ world, name_infix_rowText _ _ world,
        (short_suffix_rowText _ _ world).isInfix⟩
      rw [List.getElem?_map, getElem?_rowTexts hworld]
      rfl
    · intro i world account hworld
      have hposition : registry.getByPosition (i + 1) = some world :=
        (registry.getByPosition_succ i).trans hworld
      have hfits : i + 1 ≤ usizeMax := by
        obtain ⟨hi, _⟩ := List.getElem?_eq_some_iff.mp hworld
        exact Nat.le_trans hi (WorldRegistry.len_le_usizeMax h)
      exact ⟨parseUsize_toString hfits, hposition, handleInput_toString rfl hfits hposition⟩

def studioToml (name : String) : String :=
  "[[world]]\nslug = \"studio\"\nname = \"" ++ name ++ "\"\nshort = \"A small interior.\"\n"

def studioFile (name : String) : WorldsFile where
  world := [⟨"studio", name, "A small interior."⟩]
  fits := (by decide : 1 ≤ usizeMax)

/-- What the parser makes of two files: in the second the name has an escaped newline. -/
def testFromStr (content : String) : Except String WorldsFile :=
  if content = studioToml "The Studio" then .ok (studioFile "The Studio")
  else if content = studioToml "The\\nStudio" then .ok (studioFile "The\nStudio")
  else .error "expected a file of this test"

def studioRegistry (name : String) : WorldRegistry := ⟨[⟨"studio", name, "A small interior."⟩]⟩

theorem matchesSelection_studio : MatchesSelection (studioRegistry "The Studio") := by
  have hload : WorldRegistry.loadFromToml testFromStr "worlds.toml"
      (.ok (studioToml "The Studio")) = .ok (studioRegistry "The Studio") := by
    decide +kernel
  apply (matchesSelection_iff hload).mpr
  refine ⟨?_, ?_⟩
  · intro world hworld
    obtain rfl := List.mem_singleton.mp hworld
    decide +kernel
  · intro world hworld
    obtain rfl := List.mem_singleton.mp hworld
    decide +kernel

/-- A newline in a name is accepted, and the list has a line too many. -/
theorem studio_broken :
    WorldRegistry.loadFromToml testFromStr "worlds.toml" (.ok (studioToml "The\\nStudio")) =
        .ok (studioRegistry "The\nStudio") ∧
      ¬ MatchesSelection (studioRegistry "The\nStudio") := by
  refine ⟨by decide +kernel, ?_⟩
  intro hmatches
  obtain ⟨list, rows, hlist, hlines, _, hlen, _⟩ := hmatches.rows
  have hthree : (formatWorldList (studioRegistry "The\nStudio").worlds).map
      (fun list => (complete (asBytes list)).length) = some 3 := by
    decide +kernel
  rw [hlist, Option.map_some, Option.some_inj] at hthree
  rw [hlines, List.length_cons, hlen] at hthree
  cases hthree

end Liaozhai.Net.WorldList
