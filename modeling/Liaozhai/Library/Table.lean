import Mathlib.Data.List.Nodup
import Mathlib.Logic.Function.Basic

/-!
# Tables with a key

A list of rows in which no two have the same key stands for a map from keys to
entries. What is said of an insertion and of an update in place is enough for a
table that has no deletion.
-/

namespace Liaozhai.Table

set_option autoImplicit false

universe u v w

variable {Row : Type u} {Key : Type v} {Entry : Type w} {key : Row → Key}
  {rows : List Row} {row : Row} {k : Key}

theorem nodup_append_singleton (h : (rows.map key).Nodup) (hnew : ∀ old ∈ rows, key old ≠ key row) :
    ((rows ++ [row]).map key).Nodup := by
  rw [List.map_append, List.nodup_append]
  refine ⟨h, List.nodup_singleton _, ?_⟩
  intro k hk k' hk' heq
  obtain ⟨old, hold, rfl⟩ := List.mem_map.mp hk
  obtain rfl := List.mem_singleton.mp hk'
  exact hnew old hold heq

theorem map_key_map {f : Row → Row} (hf : ∀ row, key (f row) = key row) :
    (rows.map f).map key = rows.map key := by
  rw [List.map_map]
  apply List.map_congr_left
  intro row _
  exact hf row

variable [DecidableEq Key]

section Lookup
variable (key rows k)

def lookup : Option Row := rows.find? fun row => key row == k

theorem lookup_append_singleton (row : Row) :
    lookup key (rows ++ [row]) k =
      (lookup key rows k).or (if key row = k then some row else none) := by
  rw [lookup, lookup, List.find?_append, List.find?_singleton]
  simp only [beq_iff_eq]

theorem lookup_map {f : Row → Row} (hf : ∀ row, key (f row) = key row) :
    lookup key (rows.map f) k = (lookup key rows k).map f := by
  rw [lookup, lookup, List.find?_map]
  congr 2
  funext row
  exact congrArg (· == k) (hf row)

end Lookup

theorem mem_of_lookup (h : lookup key rows k = some row) : row ∈ rows ∧ key row = k := by
  refine ⟨List.mem_of_find?_eq_some h, ?_⟩
  exact beq_iff_eq.mp (List.find?_some (p := fun row => key row == k) h)

theorem lookup_eq_none : lookup key rows k = none ↔ ∀ row ∈ rows, key row ≠ k := by
  rw [lookup, List.find?_eq_none]
  simp only [beq_iff_eq, ne_eq]

variable (key) in
/-- The table stands for the map: each row shows the entry that the map has at its key. -/
structure Represents (Shows : Row → Entry → Prop) (rows : List Row) (map : Key → Option Entry) :
    Prop where
  distinct : (rows.map key).Nodup
  agrees : ∀ k, Option.Rel Shows (lookup key rows k) (map k)

namespace Represents
variable {Shows : Row → Entry → Prop} {map : Key → Option Entry} {entry : Entry}

theorem empty : Represents key Shows [] fun _ => none :=
  ⟨List.nodup_nil, fun _ => Option.Rel.none⟩

theorem lookup_of_some (h : Represents key Shows rows map) (hentry : map k = some entry) :
    ∃ row, lookup key rows k = some row ∧ Shows row entry := by
  have hk := h.agrees k
  rw [hentry] at hk
  cases hfound : lookup key rows k with
  | none =>
    rw [hfound] at hk
    cases hk
  | some row =>
    rw [hfound] at hk
    cases hk with
    | some hshows => exact ⟨row, rfl, hshows⟩

theorem lookup_eq_none_iff (h : Represents key Shows rows map) :
    lookup key rows k = none ↔ map k = none := by
  have hk := h.agrees k
  constructor
  · intro hnone
    rw [hnone] at hk
    cases hentry : map k with
    | none => rfl
    | some entry =>
      rw [hentry] at hk
      cases hk
  · intro hnone
    rw [hnone] at hk
    cases hfound : lookup key rows k with
    | none => rfl
    | some row =>
      rw [hfound] at hk
      cases hk

theorem insert (h : Represents key Shows rows map) (hnew : map (key row) = none)
    (hshows : Shows row entry) :
    Represents key Shows (rows ++ [row]) (Function.update map (key row) (some entry)) := by
  have hfree := h.lookup_eq_none_iff.mpr hnew
  refine ⟨nodup_append_singleton h.distinct (lookup_eq_none.mp hfree), ?_⟩
  intro k
  rw [lookup_append_singleton]
  by_cases hk : key row = k
  · subst hk
    rw [hfree, Option.none_or, if_pos rfl, Function.update_self]
    exact Option.Rel.some hshows
  · rw [if_neg hk, Option.or_none, Function.update_of_ne (Ne.symm hk)]
    exact h.agrees k

theorem alter {f : Row → Row} {g : Entry → Entry} (h : Represents key Shows rows map)
    (hf : ∀ row, key (f row) = key row)
    (hshows : ∀ row entry, Shows row entry → Shows (f row) (g entry)) :
    Represents key Shows (rows.map f) fun k => (map k).map g := by
  refine ⟨(map_key_map hf).symm ▸ h.distinct, ?_⟩
  intro k
  rw [lookup_map key rows k hf]
  have hk := h.agrees k
  cases hentry : map k with
  | none =>
    rw [h.lookup_eq_none_iff.mpr hentry]
    exact Option.Rel.none
  | some entry =>
    obtain ⟨row, hrow, hrowShows⟩ := h.lookup_of_some hentry
    rw [hrow]
    exact Option.Rel.some (hshows row entry hrowShows)

end Represents

end Liaozhai.Table
