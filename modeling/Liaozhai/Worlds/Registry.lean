import Liaozhai.Library.RustString

/-!
# The world registry

The list of worlds, the lookup by the number that the list shows, and the file that
the worlds are loaded from. The TOML parser is a parameter.
-/

namespace Liaozhai.Worlds

open RustString (trim)
set_option autoImplicit false

structure WorldMetadata where
  slug : String
  name : String
  shortDescription : String
  deriving DecidableEq, Repr

structure WorldRegistry where
  worlds : List WorldMetadata
  deriving DecidableEq, Repr

namespace WorldRegistry

def len (registry : WorldRegistry) : Nat := registry.worlds.length

def getByPosition (registry : WorldRegistry) (oneBasedIndex : Nat) : Option WorldMetadata :=
  if oneBasedIndex = 0 then none else registry.worlds[oneBasedIndex - 1]?

end WorldRegistry

structure WorldEntryDto where
  slug : String
  name : String
  short : String
  deriving DecidableEq, Repr

/-- The parsed file. The length of a `Vec` is a `usize`. -/
structure WorldsFile where
  world : List WorldEntryDto
  fits : world.length ≤ RustString.usizeMax

/-- The fields are trimmed before they are stored. -/
def WorldEntryDto.metadata (entry : WorldEntryDto) : WorldMetadata :=
  ⟨trim entry.slug, trim entry.name, trim entry.short⟩

/-- The entries from position `i` on, with the slugs of those before. -/
def parseEntries : Nat → List String → List WorldEntryDto → Except String (List WorldMetadata)
  | _, _, [] => .ok []
  | i, slugs, entry :: entries =>
    let pos := i + 1
    let slug := trim entry.slug
    let name := trim entry.name
    let short := trim entry.short
    if slug = "" then .error ("entry " ++ toString pos ++ ": slug is empty")
    else if name = "" then .error ("entry " ++ toString pos ++ ": name is empty")
    else if short = "" then .error ("entry " ++ toString pos ++ ": short description is empty")
    else if slug ∈ slugs then
      .error ("entry " ++ toString pos ++ ": duplicate slug '" ++ slug ++ "'")
    else
      match parseEntries (i + 1) (slug :: slugs) entries with
      | .error e => .error e
      | .ok worlds => .ok (⟨slug, name, short⟩ :: worlds)

def parseWorldsToml (fromStr : String → Except String WorldsFile) (content : String) :
    Except String (List WorldMetadata) :=
  match fromStr content with
  | .error e => .error e
  | .ok file => parseEntries 0 [] file.world

/-- What is read from the file at `path` becomes the registry. -/
def WorldRegistry.loadFromToml (fromStr : String → Except String WorldsFile) (path : String)
    (content : Except String String) : Except String WorldRegistry :=
  match content with
  | .error e => .error ("reading " ++ path ++ ": " ++ e)
  | .ok content =>
    match parseWorldsToml fromStr content with
    | .error e => .error ("parsing " ++ path ++ ": " ++ e)
    | .ok worlds =>
      if worlds = [] then .error ("world registry is empty: " ++ path) else .ok ⟨worlds⟩

/-- What every stored world satisfies. -/
def WorldMetadata.Filled (world : WorldMetadata) : Prop :=
  world.slug ≠ "" ∧ world.name ≠ "" ∧ world.shortDescription ≠ ""

variable {fromStr : String → Except String WorldsFile} {path : String}
  {content : Except String String} {registry : WorldRegistry} {entries : List WorldEntryDto}
  {worlds : List WorldMetadata} {slugs : List String} {i : Nat}

/-- Entries are accepted as they stand, filled and with slugs that are all new. -/
theorem parseEntries_ok (h : parseEntries i slugs entries = .ok worlds) :
    worlds = entries.map WorldEntryDto.metadata ∧ (∀ world ∈ worlds, world.Filled) ∧
      (worlds.map WorldMetadata.slug).Nodup ∧ ∀ world ∈ worlds, world.slug ∉ slugs := by
  induction entries generalizing i slugs worlds with
  | nil =>
    obtain rfl := Except.ok.inj h
    exact ⟨rfl, nofun, List.nodup_nil, nofun⟩
  | cons entry entries ih =>
    rw [parseEntries] at h
    split_ifs at h with hslug hname hshort hused
    split at h
    · cases h
    · rename_i rest hrest
      obtain rfl := Except.ok.inj h
      obtain ⟨hmap, hfilled, hnodup, hnew⟩ := ih hrest
      refine ⟨congrArg _ hmap, ?_, ?_, ?_⟩
      · intro world hworld
        rcases List.mem_cons.mp hworld with rfl | hworld
        · exact ⟨hslug, hname, hshort⟩
        · exact hfilled world hworld
      · apply List.nodup_cons.mpr
        refine ⟨?_, hnodup⟩
        intro hmem
        obtain ⟨world, hworld, hsame⟩ := List.mem_map.mp hmem
        exact hnew world hworld (hsame ▸ List.mem_cons_self)
      · intro world hworld
        rcases List.mem_cons.mp hworld with rfl | hworld
        · exact hused
        · exact fun hmem => hnew world hworld (List.mem_cons_of_mem _ hmem)

namespace WorldRegistry

theorem loadFromToml_ok (h : loadFromToml fromStr path content = .ok registry) :
    registry.worlds ≠ [] ∧ ∃ file : WorldsFile,
      registry.worlds = file.world.map WorldEntryDto.metadata ∧
        (∀ world ∈ registry.worlds, world.Filled) ∧
        (registry.worlds.map WorldMetadata.slug).Nodup := by
  unfold loadFromToml at h
  split at h
  · cases h
  · split at h
    · cases h
    · rename_i worlds hworlds
      split_ifs at h with hempty
      obtain rfl := Except.ok.inj h
      unfold parseWorldsToml at hworlds
      split at hworlds
      · cases hworlds
      · rename_i file _
        obtain ⟨hmap, hfilled, hnodup, _⟩ := parseEntries_ok hworlds
        exact ⟨hempty, file, hmap, hfilled, hnodup⟩

/-- Positions of a loaded registry are all numbers that can be entered. -/
theorem len_le_usizeMax (h : loadFromToml fromStr path content = .ok registry) :
    registry.len ≤ RustString.usizeMax := by
  obtain ⟨_, file, hmap, _⟩ := loadFromToml_ok h
  rw [len, hmap, List.length_map]
  exact file.fits

theorem getByPosition_succ (registry : WorldRegistry) (i : Nat) :
    registry.getByPosition (i + 1) = registry.worlds[i]? :=
  if_neg (Nat.succ_ne_zero i)

end WorldRegistry

end Liaozhai.Worlds
