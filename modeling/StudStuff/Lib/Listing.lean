import Mathlib.Data.List.Nodup
import StudStuff.Lib.OrderedSet

/-!
# Ordered sets with positions

The client of an ordered container holds positions in it. A `Listing` is an ordered set in which
every element has a position of its own. A position says which element is meant whatever is
inserted or erased around it, so an operation that keeps an element keeps it where it is
(`mem_insert`, `mem_erase`, `mem_remove`).

A `Store` has listings under names, and no position is in two of them. It is what a program with
several containers works on: an element may move from one listing to another and still keep its
position.
-/

set_option autoImplicit false
set_option relaxedAutoImplicit false

namespace StudStuff.Lib

variable {Name Pos α : Type*} {lt : α → α → Bool}

/-- Elements in increasing order, each with a position of its own. -/
@[ext]
structure Listing (Pos : Type*) {α : Type*} (lt : α → α → Bool) where
  entries : List (Pos × α)
  sorted : (entries.map Prod.snd).Pairwise fun first second ↦ lt first second = true
  nodup : (entries.map Prod.fst).Nodup

namespace Listing

/-- No elements. -/
def empty : Listing Pos lt := ⟨[], List.pairwise_map.mpr .nil, List.nodup_nil⟩

/-- The entry in the class of a key. -/
def find? (listing : Listing Pos lt) (key : α) : Option (Pos × α) :=
  listing.entries.find? fun entry ↦ equivalent lt key entry.2

/-- The first entry that is not below a key. -/
def lowerBound? (listing : Listing Pos lt) (key : α) : Option (Pos × α) :=
  listing.entries.find? fun entry ↦ !lt entry.2 key

/-- The first entry above a key. -/
def upperBound? (listing : Listing Pos lt) (key : α) : Option (Pos × α) :=
  listing.entries.find? fun entry ↦ lt key entry.2

/-- The listing without the class of a key. -/
def remove (listing : Listing Pos lt) (key : α) : Listing Pos lt where
  entries := listing.entries.filter fun entry ↦ !equivalent lt key entry.2
  sorted := listing.sorted.sublist (List.filter_sublist.map _)
  nodup := listing.nodup.sublist (List.filter_sublist.map _)

section Positions

variable [DecidableEq Pos]

/-- The listing without the entry at a position. -/
def erase (listing : Listing Pos lt) (pos : Pos) : Listing Pos lt where
  entries := listing.entries.filter fun entry ↦ entry.1 ≠ pos
  sorted := listing.sorted.sublist (List.filter_sublist.map _)
  nodup := listing.nodup.sublist (List.filter_sublist.map _)

/-- The entry after a position. -/
def next? (listing : Listing Pos lt) (pos : Pos) : Option (Pos × α) :=
  (listing.entries.dropWhile fun entry ↦ entry.1 ≠ pos).tail.head?

end Positions

section Insert

variable [IsStrictWeakOrder α fun first second ↦ lt first second = true]

/-- The listing with a new element at a new position. -/
def insert (listing : Listing Pos lt) (pos : Pos) (key : α)
    (hfresh : pos ∉ listing.entries.map Prod.fst) : Listing Pos lt where
  entries := listing.entries.filter (fun entry ↦ lt entry.2 key) ++
    (pos, key) :: listing.entries.filter fun entry ↦ lt key entry.2
  sorted := by
    rw [List.map_append, List.map_cons, List.pairwise_append, List.pairwise_cons]
    have hbelow {entry : α} (hmem : entry ∈ (listing.entries.filter fun entry ↦
        lt entry.2 key).map Prod.snd) : lt entry key = true := by
      obtain ⟨entry, hentry, rfl⟩ := List.mem_map.mp hmem
      exact (List.mem_filter.mp hentry).2
    have habove {entry : α} (hmem : entry ∈ (listing.entries.filter fun entry ↦
        lt key entry.2).map Prod.snd) : lt key entry = true := by
      obtain ⟨entry, hentry, rfl⟩ := List.mem_map.mp hmem
      exact (List.mem_filter.mp hentry).2
    refine ⟨listing.sorted.sublist (List.filter_sublist.map _), ⟨fun entry ↦ habove,
      listing.sorted.sublist (List.filter_sublist.map _)⟩, fun first hfirst second hsecond ↦ ?_⟩
    rcases List.mem_cons.mp hsecond with rfl | hmem
    · exact hbelow hfirst
    · exact weakOrder_trans (hbelow hfirst) (habove hmem)
  nodup := by
    rw [List.map_append, List.map_cons, List.nodup_append, List.nodup_cons]
    have hsub {keep : Pos × α → Bool} {other : Pos}
        (hmem : other ∈ (listing.entries.filter keep).map Prod.fst) :
        other ∈ listing.entries.map Prod.fst := (List.filter_sublist.map _).subset hmem
    refine ⟨listing.nodup.sublist (List.filter_sublist.map _), ⟨fun hmem ↦ hfresh (hsub hmem),
      listing.nodup.sublist (List.filter_sublist.map _)⟩, fun first hfirst second hsecond ↦ ?_⟩
    rintro rfl
    rcases List.mem_cons.mp hsecond with rfl | hmem
    · exact hfresh (hsub hfirst)
    · obtain ⟨entry, hentry, rfl⟩ := List.mem_map.mp hfirst
      obtain ⟨entry', hentry', hpos⟩ := List.mem_map.mp hmem
      obtain ⟨hentry, hlt⟩ := List.mem_filter.mp hentry
      obtain ⟨hentry', hgt⟩ := List.mem_filter.mp hentry'
      obtain rfl := List.inj_on_of_nodup_map listing.nodup hentry' hentry hpos
      rw [weakOrder_asymm hlt] at hgt
      cases hgt

end Insert

section Cuts

variable {listing : Listing Pos lt} {smaller greater : List (Pos × α)} {entry : Pos × α}

@[simp] theorem entries_remove (listing : Listing Pos lt) (key : α) :
    (listing.remove key).entries =
      listing.entries.filter fun entry ↦ !equivalent lt key entry.2 :=
  rfl

theorem mem_remove {key : α} : entry ∈ (listing.remove key).entries ↔
    entry ∈ listing.entries ∧ equivalent lt key entry.2 = false := by
  simp

theorem find?_eq_none_iff {key : α} : listing.find? key = none ↔
    ∀ entry ∈ listing.entries, equivalent lt key entry.2 = false := by
  simp [find?]

/-- The other entries have other positions. -/
theorem ne_of_cut (h : listing.entries = smaller ++ entry :: greater) {other : Pos × α}
    (hmem : other ∈ smaller ++ greater) : other.1 ≠ entry.1 := by
  have hnodup := listing.nodup
  rw [h, List.map_append, List.map_cons, List.nodup_middle, List.nodup_cons,
    ← List.map_append] at hnodup
  intro heq
  exact hnodup.1 (heq ▸ List.mem_map_of_mem hmem)

variable [DecidableEq Pos]

@[simp] theorem entries_erase (listing : Listing Pos lt) (pos : Pos) :
    (listing.erase pos).entries = listing.entries.filter fun entry ↦ entry.1 ≠ pos :=
  rfl

theorem mem_erase {pos : Pos} : entry ∈ (listing.erase pos).entries ↔
    entry ∈ listing.entries ∧ entry.1 ≠ pos := by
  simp

/-- The entry at the cut is the only one that goes. -/
theorem entries_erase_of_cut (h : listing.entries = smaller ++ entry :: greater) :
    (listing.erase entry.1).entries = smaller ++ greater := by
  have hkeep : (smaller ++ greater).filter (fun other ↦ other.1 ≠ entry.1) = smaller ++ greater :=
    List.filter_eq_self.mpr fun other hmem ↦ decide_eq_true (ne_of_cut h hmem)
  rw [List.filter_append] at hkeep
  rw [entries_erase, h, List.filter_append, List.filter_cons_of_neg (by simp), hkeep]

/-- The next entry is the first one after the cut. -/
theorem next?_of_cut (h : listing.entries = smaller ++ entry :: greater) :
    listing.next? entry.1 = greater.head? := by
  rw [next?, h, List.dropWhile_append_of_pos fun other hmem ↦
      decide_eq_true (ne_of_cut h (List.mem_append_left _ hmem)),
    List.dropWhile_cons_of_neg (by simp), List.tail_cons]

end Cuts

section Insertion

variable [IsStrictWeakOrder α fun first second ↦ lt first second = true]
  {listing : Listing Pos lt} {pos : Pos} {key : α}

@[simp] theorem entries_insert (hfresh : pos ∉ listing.entries.map Prod.fst) :
    (listing.insert pos key hfresh).entries =
      listing.entries.filter (fun entry ↦ lt entry.2 key) ++
        (pos, key) :: listing.entries.filter fun entry ↦ lt key entry.2 :=
  rfl

/-- The new entry lands at the cut. -/
theorem entries_insert_of_cut {smaller greater : List (Pos × α)}
    (h : listing.entries = smaller ++ greater)
    (hsmaller : ∀ entry ∈ smaller, lt entry.2 key = true)
    (hgreater : ∀ entry ∈ greater, lt key entry.2 = true)
    (hfresh : pos ∉ listing.entries.map Prod.fst) :
    (listing.insert pos key hfresh).entries = smaller ++ (pos, key) :: greater := by
  have hbelow : (smaller ++ greater).filter (fun entry ↦ lt entry.2 key) = smaller := by
    rw [List.filter_append, List.filter_eq_self.mpr hsmaller, List.filter_eq_nil_iff.mpr,
      List.append_nil]
    intro entry hmem
    rw [weakOrder_asymm (hgreater entry hmem)]
    decide
  have habove : (smaller ++ greater).filter (fun entry ↦ lt key entry.2) = greater := by
    rw [List.filter_append, List.filter_eq_self.mpr hgreater, List.filter_eq_nil_iff.mpr,
      List.nil_append]
    intro entry hmem
    rw [weakOrder_asymm (hsmaller entry hmem)]
    decide
  rw [entries_insert, h, hbelow, habove]

/-- An insertion keeps the other entries when the class of the key is new. -/
theorem mem_insert (h : listing.find? key = none) (hfresh : pos ∉ listing.entries.map Prod.fst)
    {entry : Pos × α} : entry ∈ (listing.insert pos key hfresh).entries ↔
      entry = (pos, key) ∨ entry ∈ listing.entries := by
  rw [entries_insert, List.mem_append, List.mem_cons, List.mem_filter, List.mem_filter]
  constructor
  · rintro (⟨hmem, -⟩ | rfl | ⟨hmem, -⟩)
    · exact Or.inr hmem
    · exact Or.inl rfl
    · exact Or.inr hmem
  · rintro (rfl | hmem)
    · exact Or.inr (Or.inl rfl)
    · have hnew := find?_eq_none_iff.mp h entry hmem
      rw [Bool.eq_false_iff, Ne, equivalent_iff, not_and_or, Bool.not_eq_false,
        Bool.not_eq_false] at hnew
      rcases hnew with habove | hbelow
      · exact Or.inr (Or.inr ⟨hmem, habove⟩)
      · exact Or.inl ⟨hmem, hbelow⟩

end Insertion

end Listing

/-! ### Several listings -/

/-- An entry lies in the listing of a name. -/
def Lies (listings : Name → Option (Listing Pos lt)) (name : Name) (entry : Pos × α) : Prop :=
  ∃ listing ∈ listings name, entry ∈ listing.entries

section Update

variable {listings : Name → Option (Listing Pos lt)} {listing changed : Listing Pos lt}
  {name other source : Name} {entry : Pos × α}

theorem Lies.mem (h : Lies listings name entry) (hlisting : listing ∈ listings name) :
    entry ∈ listing.entries := by
  obtain ⟨listing', hlisting', hmem⟩ := h
  cases hlisting.symm.trans hlisting'
  exact hmem

theorem Lies.ne_of_none (h : Lies listings other entry) (hnone : listings name = none) :
    other ≠ name := by
  rintro rfl
  obtain ⟨listing, hlisting, -⟩ := h
  cases hnone.symm.trans hlisting

variable [DecidableEq Name]

theorem lies_update_self :
    Lies (Function.update listings name (some listing)) name entry ↔ entry ∈ listing.entries := by
  constructor
  · exact fun h ↦ h.mem (Function.update_self ..)
  · exact fun hmem ↦ ⟨listing, Function.update_self .., hmem⟩

theorem not_lies_update_none : ¬Lies (Function.update listings name none) name entry :=
  fun h ↦ h.ne_of_none (Function.update_self ..) rfl

theorem lies_update_of_ne {listing : Option (Listing Pos lt)} (h : other ≠ name) :
    Lies (Function.update listings name listing) other entry ↔ Lies listings other entry := by
  rw [Lies, Lies, Function.update_of_ne h]

/-- The listing of a name changes and keeps the entry. -/
theorem Lies.update (h : Lies listings other entry) (hlisting : listing ∈ listings name)
    (hkeeps : other = name → entry ∈ listing.entries → entry ∈ changed.entries) :
    Lies (Function.update listings name (some changed)) other entry := by
  by_cases hname : other = name
  · subst hname
    exact lies_update_self.mpr (hkeeps rfl (h.mem hlisting))
  · exact (lies_update_of_ne hname).mpr h

/-- A listing goes to another name. -/
theorem Lies.moved (h : Lies listings other entry) (hlisting : listing ∈ listings source)
    (hother : other ≠ source → other ≠ name) :
    Lies (Function.update (Function.update listings source (some .empty)) name (some listing))
      (if other = source then name else other) entry := by
  split_ifs with hsource
  · subst hsource
    exact lies_update_self.mpr (h.mem hlisting)
  · exact (lies_update_of_ne (hother hsource)).mpr ((lies_update_of_ne hsource).mpr h)

end Update

/-- Listings under names. A position lies in one of them at most. -/
@[ext]
structure Store (Name Pos : Type*) {α : Type*} (lt : α → α → Bool) where
  listing : Name → Option (Listing Pos lt)
  apart : ∀ name name' pos key key', Lies listing name (pos, key) →
    Lies listing name' (pos, key') → name = name'

namespace Store

/-- No listings. -/
def empty : Store Name Pos lt where
  listing _ := none
  apart _ _ _ _ _ h := by
    obtain ⟨listing, hmem, -⟩ := h
    cases hmem

/-- A position that is in no listing. -/
def Fresh (store : Store Name Pos lt) (pos : Pos) : Prop :=
  ∀ name key, ¬Lies store.listing name (pos, key)

/-- A listing of the same elements at new positions. -/
def IsCopy (store : Store Name Pos lt) (original copy : Listing Pos lt) : Prop :=
  copy.entries.map Prod.snd = original.entries.map Prod.snd ∧
    ∀ entry ∈ copy.entries, store.Fresh entry.1

end Store

end StudStuff.Lib
