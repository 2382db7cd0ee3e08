import Mathlib.Data.List.Sort

/-!
# Maps as sorted lists

A finite map from ordered keys is a list of entries with strictly ascending keys, so each key has at
most one entry. Emplacing adds an entry unless its key has one already. A map is determined by its
entries, in whichever order they were emplaced (`eq_of_mem_iff`).
-/

set_option autoImplicit false
set_option relaxedAutoImplicit false

namespace StudStuff.Lib

variable {Key Value : Type} [LinearOrder Key]

/-- A map from ordered keys. -/
structure SortedMap (Key Value : Type) [LinearOrder Key] where
  entries : List (Key × Value)
  sorted : entries.Pairwise fun entry entry' ↦ entry.1 < entry'.1

/-- Add an entry at the place of its key. -/
def insertEntry (key : Key) (value : Value) : List (Key × Value) → List (Key × Value)
  | [] => [(key, value)]
  | entry :: entries =>
    if key < entry.1 then (key, value) :: entry :: entries
    else entry :: insertEntry key value entries

section Entries

variable {key : Key} {value : Value} {entry : Key × Value} {entries : List (Key × Value)}

theorem insertEntry_perm (key : Key) (value : Value) (entries : List (Key × Value)) :
    (insertEntry key value entries).Perm ((key, value) :: entries) := by
  induction entries with
  | nil => exact .refl _
  | cons first entries ih =>
    rw [insertEntry]
    split_ifs
    · exact .refl _
    · exact (ih.cons first).trans (.swap ..)

theorem mem_insertEntry :
    entry ∈ insertEntry key value entries ↔ entry = (key, value) ∨ entry ∈ entries := by
  rw [(insertEntry_perm key value entries).mem_iff, List.mem_cons]

/-- A key that has no entry is added in order. -/
theorem sorted_insertEntry (hsorted : entries.Pairwise fun entry entry' ↦ entry.1 < entry'.1)
    (hfresh : ∀ entry ∈ entries, entry.1 ≠ key) :
    (insertEntry key value entries).Pairwise fun entry entry' ↦ entry.1 < entry'.1 := by
  induction entries with
  | nil => exact List.pairwise_singleton _ _
  | cons first entries ih =>
    obtain ⟨hfirst, hentries⟩ := List.pairwise_cons.mp hsorted
    obtain ⟨hne, hothers⟩ := List.forall_mem_cons.mp hfresh
    rw [insertEntry]
    split_ifs with hlt
    · refine List.pairwise_cons.mpr ⟨?_, hsorted⟩
      intro other hmem
      rcases List.mem_cons.mp hmem with rfl | hmem
      · exact hlt
      · exact hlt.trans (hfirst other hmem)
    · refine List.pairwise_cons.mpr ⟨?_, ih hentries hothers⟩
      intro other hmem
      rcases mem_insertEntry.mp hmem with rfl | hmem
      · exact lt_of_le_of_ne (not_lt.mp hlt) hne
      · exact hfirst other hmem

end Entries

namespace SortedMap

variable {map map' : SortedMap Key Value} {key : Key} {value : Value} {entry : Key × Value}

/-- The map without entries. -/
def empty : SortedMap Key Value := ⟨[], List.Pairwise.nil⟩

/-- A key has an entry. -/
def Has (map : SortedMap Key Value) (key : Key) : Prop := ∃ entry ∈ map.entries, entry.1 = key

instance (map : SortedMap Key Value) (key : Key) : Decidable (map.Has key) :=
  inferInstanceAs (Decidable (∃ entry ∈ map.entries, entry.1 = key))

/-- Add an entry unless its key has one, and say whether it was added. -/
def emplace (map : SortedMap Key Value) (key : Key) (value : Value) : SortedMap Key Value × Bool :=
  if h : map.Has key then (map, false)
  else (⟨insertEntry key value map.entries, sorted_insertEntry map.sorted fun entry hmem heq ↦
    h ⟨entry, hmem, heq⟩⟩, true)

theorem emplace_of_has (h : map.Has key) (value : Value) : map.emplace key value = (map, false) :=
  dif_pos h

theorem emplace_snd (h : ¬map.Has key) (value : Value) : (map.emplace key value).2 = true := by
  rw [emplace, dif_neg h]

theorem mem_emplace (h : ¬map.Has key) :
    entry ∈ (map.emplace key value).1.entries ↔ entry = (key, value) ∨ entry ∈ map.entries := by
  rw [emplace, dif_neg h]
  exact mem_insertEntry

/-- A map is determined by its entries. -/
theorem eq_of_mem_iff (h : ∀ entry, entry ∈ map.entries ↔ entry ∈ map'.entries) : map = map' := by
  have hnodup (map : SortedMap Key Value) : map.entries.Nodup :=
    map.sorted.imp fun hlt heq ↦ (heq ▸ hlt).false
  have hperm := (List.perm_ext_iff_of_nodup (hnodup map) (hnodup map')).mpr h
  have hentries := hperm.eq_of_pairwise
    (fun _ _ _ _ hlt hlt' ↦ absurd hlt (not_lt.mpr hlt'.le)) map.sorted map'.sorted
  cases map
  cases map'
  cases hentries
  rfl

end SortedMap

end StudStuff.Lib
