import Liaozhai.Worlds.Registry
import Mathlib.Data.List.Induction
import Mathlib.Data.List.Nodup

/-!
# Validation of the world file

The loop carries the slugs of the entries before, and stops at the first entry that
cannot follow them. An entry can follow when its fields are not empty after trimming
and its trimmed slug is new; a file is valid when every entry can follow those before.
-/

namespace Liaozhai.Worlds

open RustString (trim)
set_option autoImplicit false

def WorldEntryDto.trimmedSlug (entry : WorldEntryDto) : String := trim entry.slug

/-- What is wrong with an entry after the entries before it. -/
def fault (before : List WorldEntryDto) (entry : WorldEntryDto) : Option String :=
  if trim entry.slug = "" then some "slug is empty"
  else if trim entry.name = "" then some "name is empty"
  else if trim entry.short = "" then some "short description is empty"
  else if trim entry.slug ∈ before.map WorldEntryDto.trimmedSlug then
    some ("duplicate slug '" ++ trim entry.slug ++ "'")
  else none

/-- The fields are not empty and the slugs are distinct, all after trimming. -/
structure Valid (entries : List WorldEntryDto) : Prop where
  filled : ∀ entry ∈ entries, trim entry.slug ≠ "" ∧ trim entry.name ≠ "" ∧ trim entry.short ≠ ""
  distinct : (entries.map WorldEntryDto.trimmedSlug).Nodup

/-- The text blames the entry at position `i + 1`: all entries before it are valid. -/
def Blames (entries : List WorldEntryDto) (i : Nat) (error : String) : Prop :=
  (∀ j ≤ i, Valid (entries.take j)) ∧ ¬ Valid (entries.take (i + 1)) ∧
    ∃ entry ∈ entries[i]?, ∃ reason ∈ fault (entries.take i) entry,
      error = "entry " ++ toString (i + 1) ++ ": " ++ reason

variable {before entries : List WorldEntryDto} {entry : WorldEntryDto} {slugs : List String}

theorem valid_nil : Valid [] := by
  refine ⟨?_, List.nodup_nil⟩
  intro entry hentry
  cases hentry

theorem fault_eq_none :
    fault before entry = none ↔
      (trim entry.slug ≠ "" ∧ trim entry.name ≠ "" ∧ trim entry.short ≠ "") ∧
        trim entry.slug ∉ before.map WorldEntryDto.trimmedSlug := by
  unfold fault
  split_ifs with hslug hname hshort hused
  · exact iff_of_false (by simp) fun h => h.1.1 hslug
  · exact iff_of_false (by simp) fun h => h.1.2.1 hname
  · exact iff_of_false (by simp) fun h => h.1.2.2 hshort
  · exact iff_of_false (by simp) fun h => h.2 hused
  · exact iff_of_true rfl ⟨⟨hslug, hname, hshort⟩, hused⟩

/-- An entry without a fault may follow valid entries, and no other may. -/
theorem valid_snoc : Valid (before ++ [entry]) ↔ Valid before ∧ fault before entry = none := by
  rw [fault_eq_none]
  constructor
  · intro h
    obtain ⟨hfilled, hdistinct⟩ := h
    rw [List.map_append, List.nodup_append] at hdistinct
    obtain ⟨hbefore, _, hnew⟩ := hdistinct
    refine ⟨⟨?_, hbefore⟩, hfilled entry (by simp), ?_⟩
    · intro old hold
      exact hfilled old (List.mem_append_left _ hold)
    · intro hmem
      exact hnew _ hmem (trim entry.slug) (by simp [WorldEntryDto.trimmedSlug]) rfl
  · rintro ⟨⟨hfilled, hdistinct⟩, hentry, hnew⟩
    refine ⟨?_, ?_⟩
    · intro old hold
      rcases List.mem_append.mp hold with hmem | hmem
      · exact hfilled old hmem
      · rw [List.mem_singleton.mp hmem]
        exact hentry
    · rw [List.map_append, List.nodup_append]
      refine ⟨hdistinct, List.nodup_singleton _, ?_⟩
      intro slug hslug slug' hslug' hsame
      have hentrySlug : slug' = entry.trimmedSlug := by simpa using hslug'
      rw [hsame, hentrySlug] at hslug
      exact hnew hslug

theorem Valid.of_append (h : Valid (before ++ entries)) : Valid before := by
  induction entries using List.reverseRecOn with
  | nil => simpa using h
  | append_singleton entries entry ih =>
    rw [← List.append_assoc] at h
    exact ih (valid_snoc.mp h).1

theorem Valid.take (h : Valid entries) (n : Nat) : Valid (entries.take n) := by
  rw [← List.take_append_drop n entries] at h
  exact h.of_append

theorem parseEntries_cons (hslugs : ∀ slug, slug ∈ slugs ↔
      slug ∈ before.map WorldEntryDto.trimmedSlug) (i : Nat) :
    parseEntries i slugs (entry :: entries) =
      match fault before entry with
      | some reason => .error ("entry " ++ toString (i + 1) ++ ": " ++ reason)
      | none =>
        match parseEntries (i + 1) (trim entry.slug :: slugs) entries with
        | .error e => .error e
        | .ok worlds => .ok (entry.metadata :: worlds) := by
  have happend : ∀ reason : String, "entry " ++ toString (i + 1) ++ ": " ++ reason =
      "entry " ++ toString (i + 1) ++ (": " ++ reason) := fun reason => String.append_assoc
  have hduplicate : ": duplicate slug '" = ": " ++ "duplicate slug '" := by decide
  rw [parseEntries, fault]
  simp only [hslugs, happend]
  split_ifs
  · rfl
  · rfl
  · rfl
  · simp only [hduplicate, String.append_assoc]
  · rfl

/-- The loop ends with every entry stored, or at the first entry with a fault. -/
theorem parseEntries_cases (hvalid : Valid before)
    (hslugs : ∀ slug, slug ∈ slugs ↔ slug ∈ before.map WorldEntryDto.trimmedSlug) :
    (Valid (before ++ entries) ∧
      parseEntries before.length slugs entries = .ok (entries.map WorldEntryDto.metadata)) ∨
    ∃ mid entry rest reason, entries = mid ++ entry :: rest ∧ Valid (before ++ mid) ∧
      fault (before ++ mid) entry = some reason ∧
      parseEntries before.length slugs entries =
        .error ("entry " ++ toString ((before ++ mid).length + 1) ++ ": " ++ reason) := by
  induction entries generalizing before slugs with
  | nil =>
    left
    rw [List.append_nil]
    exact ⟨hvalid, rfl⟩
  | cons entry entries ih =>
    rw [parseEntries_cons hslugs]
    cases hfault : fault before entry with
    | some reason =>
      right
      refine ⟨[], entry, entries, reason, rfl, ?_, ?_, ?_⟩
      · rw [List.append_nil]
        exact hvalid
      · rw [List.append_nil]
        exact hfault
      · rw [List.append_nil]
    | none =>
      have hnext : Valid (before ++ [entry]) := valid_snoc.mpr ⟨hvalid, hfault⟩
      have hslugs' : ∀ slug, slug ∈ trim entry.slug :: slugs ↔
          slug ∈ (before ++ [entry]).map WorldEntryDto.trimmedSlug := by
        intro slug
        rw [List.mem_cons, hslugs, List.map_append, List.mem_append, or_comm]
        simp [WorldEntryDto.trimmedSlug]
      have hlater := ih hnext hslugs'
      rw [List.length_append, List.length_singleton] at hlater
      rcases hlater with ⟨hall, hparse⟩ | ⟨mid, entry', rest, reason, rfl, hmid, hbad, hparse⟩
      · left
        rw [hparse]
        rw [List.append_assoc] at hall
        exact ⟨hall, rfl⟩
      · right
        rw [hparse]
        rw [List.append_assoc] at hmid hbad ⊢
        exact ⟨entry :: mid, entry', rest, reason, rfl, hmid, hbad, rfl⟩

variable {fromStr : String → Except String WorldsFile} {content : String} {file : WorldsFile}

/-- The worlds of a file are accepted if and only if they are valid, and stored as they
stand; of other files the first bad entry is blamed. -/
theorem parseWorldsToml_validates (hfile : fromStr content = .ok file) :
    ((∃ worlds, parseWorldsToml fromStr content = .ok worlds) ↔ Valid file.world) ∧
      (∀ worlds, parseWorldsToml fromStr content = .ok worlds →
        worlds = file.world.map WorldEntryDto.metadata) ∧
      ∀ error, parseWorldsToml fromStr content = .error error →
        ∃ i, Blames file.world i error := by
  have hparse : parseWorldsToml fromStr content = parseEntries 0 [] file.world := by
    rw [parseWorldsToml, hfile]
  rw [hparse]
  rcases @parseEntries_cases [] file.world [] valid_nil (by simp) with
    ⟨hvalid, hok⟩ | ⟨mid, entry, rest, reason, hsplit, hmid, hbad, herror⟩
  · rw [List.length_nil] at hok
    rw [hok]
    refine ⟨iff_of_true ⟨_, rfl⟩ hvalid, ?_, ?_⟩
    · intro worlds hworlds
      exact (Except.ok.inj hworlds).symm
    · intro error herror
      cases herror
  · rw [List.length_nil] at herror
    rw [List.nil_append] at hmid hbad herror
    have htake : file.world.take mid.length = mid := by rw [hsplit, List.take_left]
    have hnext : file.world.take (mid.length + 1) = mid ++ [entry] := by
      rw [hsplit, ← List.singleton_append, ← List.append_assoc, List.take_left' (by simp)]
    have hnot : ¬ Valid (mid ++ [entry]) := by
      intro hvalid
      rw [(valid_snoc.mp hvalid).2] at hbad
      cases hbad
    rw [herror]
    refine ⟨iff_of_false (by simp) ?_, by simp, ?_⟩
    · intro hvalid
      apply hnot
      rw [← hnext]
      exact hvalid.take _
    · intro error hsame
      refine ⟨mid.length, ?_, ?_, entry, ?_, reason, ?_, (Except.error.inj hsame).symm⟩
      · intro j hj
        have hshort : file.world.take j = mid.take j := by
          rw [← htake, List.take_take, Nat.min_eq_left hj]
        rw [hshort]
        exact hmid.take j
      · rw [hnext]
        exact hnot
      · simp [hsplit]
      · rw [htake]
        exact hbad

def duplicateToml : String :=
  "[[world]]\nslug = 'abc'\nname = 'First'\nshort = 'Desc'\n" ++
    "[[world]]\nslug = '  abc  '\nname = 'Second'\nshort = 'Desc'\n"

def duplicateFile : WorldsFile where
  world := [⟨"abc", "First", "Desc"⟩, ⟨"  abc  ", "Second", "Desc"⟩]
  fits := by decide

/-- What the parser makes of the file. -/
def duplicateFromStr (content : String) : Except String WorldsFile :=
  if content = duplicateToml then .ok duplicateFile else .error "expected a file of this test"

/-- The second slug is a duplicate only after trimming. -/
theorem parseWorldsToml_duplicate :
    ∃ i, Blames duplicateFile.world i "entry 2: duplicate slug 'abc'" := by
  have hfile : duplicateFromStr duplicateToml = .ok duplicateFile := if_pos rfl
  refine (parseWorldsToml_validates hfile).2.2 _ ?_
  rw [parseWorldsToml, hfile]
  decide +kernel

end Liaozhai.Worlds
