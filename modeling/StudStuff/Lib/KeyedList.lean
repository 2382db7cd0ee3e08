import Mathlib.Data.Finmap

/-!
# Lists of entries with distinct keys

Keys are compared with `==`, which is an equivalence but need not be equality. A list of entries
whose keys are pairwise not equivalent (`Distinct`) is a finite map on the classes of equivalent
keys, `toMap`. Rearranging the list does not change the map, and the operations on maps are read
off at the head of a list.
-/

set_option autoImplicit false
set_option relaxedAutoImplicit false

namespace StudStuff.Lib

variable {Key Value : Type} [BEq Key]

/-! ### Classes of equivalent keys -/

section KeyClass

variable [EquivBEq Key]

/-- The equivalence of keys. -/
def keySetoid (Key : Type) [BEq Key] [EquivBEq Key] : Setoid Key where
  r key key' := (key == key') = true
  iseqv := ⟨fun _ ↦ BEq.refl _, BEq.symm, BEq.trans⟩

/-- The classes of equivalent keys. -/
abbrev KeyClass (Key : Type) [BEq Key] [EquivBEq Key] : Type := Quotient (keySetoid Key)

/-- The class of a key. -/
def keyClass (key : Key) : KeyClass Key := Quotient.mk (keySetoid Key) key

theorem keyClass_eq_iff {key key' : Key} : keyClass key = keyClass key' ↔ (key == key') = true :=
  ⟨Quotient.exact (s := keySetoid Key), Quotient.sound (s := keySetoid Key)⟩

instance : DecidableEq (KeyClass Key) :=
  haveI : ∀ key key' : Key, Decidable ((keySetoid Key).r key key') := fun key key' ↦
    inferInstanceAs (Decidable ((key == key') = true))
  inferInstanceAs (DecidableEq (Quotient (keySetoid Key)))

end KeyClass

/-! ### Entries and maps -/

/-- No two entries have equivalent keys. -/
def Distinct (entries : List (Key × Value)) : Prop :=
  entries.Pairwise fun entry entry' ↦ (entry.1 == entry'.1) = false

section Distinct

variable {entry : Key × Value} {entries entries' : List (Key × Value)}

theorem distinct_cons : Distinct (entry :: entries) ↔
    (∀ entry' ∈ entries, (entry.1 == entry'.1) = false) ∧ Distinct entries :=
  List.pairwise_cons

/-- The value of an entry may be replaced. -/
theorem Distinct.replace (h : Distinct (entry :: entries)) (value : Value) :
    Distinct ((entry.1, value) :: entries) :=
  distinct_cons.mpr ⟨(distinct_cons.mp h).1, (distinct_cons.mp h).2⟩

variable [EquivBEq Key]

theorem Distinct.perm (h : Distinct entries) (hperm : entries.Perm entries') : Distinct entries' :=
  (hperm.pairwise_iff fun {first second} hne ↦ by rw [BEq.comm, hne]).mp h

/-- The entry of a class. -/
def classEntry (entry : Key × Value) : (_ : KeyClass Key) × Value := ⟨keyClass entry.1, entry.2⟩

/-- The finite map of a list of entries. -/
def toMap (entries : List (Key × Value)) : Finmap fun _ : KeyClass Key ↦ Value :=
  (entries.map classEntry).toFinmap

theorem Distinct.nodupKeys (h : Distinct entries) : (entries.map classEntry).NodupKeys := by
  rw [List.NodupKeys, List.keys, List.map_map, List.Nodup, List.pairwise_map]
  refine h.imp fun {first second} hne heq ↦ ?_
  rw [keyClass_eq_iff.mp heq] at hne
  cases hne

end Distinct

section Map

variable [EquivBEq Key] {key : Key} {value : Value} {entry : Key × Value}
  {entries entries' : List (Key × Value)}

@[simp] theorem toMap_nil : toMap ([] : List (Key × Value)) = ∅ := rfl

theorem toMap_cons (entry : Key × Value) (entries : List (Key × Value)) :
    toMap (entry :: entries) = (toMap entries).insert (keyClass entry.1) entry.2 := by
  rw [toMap, List.map_cons, classEntry, Finmap.toFinmap_cons]
  rfl

/-- Rearranging the entries does not change the map. -/
theorem toMap_perm (h : Distinct entries) (hperm : entries.Perm entries') :
    toMap entries' = toMap entries := by
  apply Finmap.ext_lookup
  intro class'
  rw [toMap, toMap, Finmap.dlookup_list_toFinmap, Finmap.dlookup_list_toFinmap]
  exact List.perm_dlookup class' (h.perm hperm).nodupKeys (hperm.symm.map classEntry)

/-- The map sends the class of a key to the value of the first entry with an equivalent key. -/
theorem lookup_toMap (entries : List (Key × Value)) (key : Key) :
    (toMap entries).lookup (keyClass key) =
      (entries.find? fun entry ↦ entry.1 == key).map Prod.snd := by
  induction entries with
  | nil => rfl
  | cons entry entries ih =>
    rw [toMap_cons, List.find?_cons]
    by_cases hkey : (entry.1 == key) = true
    · rw [← keyClass_eq_iff.mpr hkey, Finmap.lookup_insert, hkey]
      rfl
    · rw [Finmap.lookup_insert_of_ne _ fun heq ↦ hkey (keyClass_eq_iff.mp heq.symm), ih,
        Bool.eq_false_iff.mpr hkey]

/-- A key whose class is in the map is equivalent to the key of an entry. -/
theorem mem_toMap (entries : List (Key × Value)) (key : Key) :
    keyClass key ∈ toMap entries ↔ ∃ entry ∈ entries, (entry.1 == key) = true := by
  rw [← Finmap.lookup_isSome, lookup_toMap, Option.isSome_map, List.find?_isSome]

/-- The value at a key is overwritten. -/
theorem insert_toMap_cons (hkey : (entry.1 == key) = true) (value : Value) :
    (toMap (entry :: entries)).insert (keyClass key) value =
      toMap ((entry.1, value) :: entries) := by
  rw [toMap_cons, toMap_cons, ← keyClass_eq_iff.mpr hkey, Finmap.insert_insert]

/-- The entry of a key is removed. -/
theorem erase_toMap_cons (h : Distinct (entry :: entries)) (hkey : (entry.1 == key) = true) :
    (toMap (entry :: entries)).erase (keyClass key) = toMap entries := by
  have hfresh : keyClass entry.1 ∉ toMap entries := by
    rw [mem_toMap]
    rintro ⟨other, hmem, hother⟩
    have hne := (distinct_cons.mp h).1 other hmem
    rw [BEq.symm hother] at hne
    cases hne
  rw [← keyClass_eq_iff.mpr hkey, toMap_cons]
  apply Finmap.ext_lookup
  intro class'
  by_cases hclass : class' = keyClass entry.1
  · rw [hclass, Finmap.lookup_erase, Finmap.lookup_eq_none.mpr hfresh]
  · rw [Finmap.lookup_erase_ne hclass, Finmap.lookup_insert_of_ne _ hclass]

/-- Nothing is removed at a key that has no entry. -/
theorem erase_toMap_of_notMem (hkey : keyClass key ∉ toMap entries) :
    (toMap entries).erase (keyClass key) = toMap entries := by
  apply Finmap.ext_lookup
  intro class'
  by_cases hclass : class' = keyClass key
  · rw [hclass, Finmap.lookup_erase, Finmap.lookup_eq_none.mpr hkey]
  · rw [Finmap.lookup_erase_ne hclass]

/-- The map has as many keys as there are entries. -/
theorem card_keys_toMap (h : Distinct entries) : (toMap entries).keys.card = entries.length := by
  have hkeys : (toMap entries).keys = ((entries.map classEntry).keys).toFinset := by
    ext class'
    rw [Finmap.mem_keys, toMap, List.mem_toFinset, Finmap.mem_list_toFinmap, List.mem_keys]
  rw [hkeys, List.toFinset_card_of_nodup h.nodupKeys, List.keys, List.length_map, List.length_map]

theorem keys_eq_empty_iff {map : Finmap fun _ : KeyClass Key ↦ Value} : map.keys = ∅ ↔ map = ∅ := by
  refine ⟨fun hkeys ↦ Finmap.ext_lookup fun class' ↦ ?_, fun hmap ↦ by rw [hmap, Finmap.keys_empty]⟩
  rw [Finmap.lookup_empty, Finmap.lookup_eq_none, ← Finmap.mem_keys, hkeys]
  exact Finset.notMem_empty class'

end Map

end StudStuff.Lib
