import StudStuff.RedBlackTree.Iteration

/-!
# The bound queries

Around any key, stored or not, the listing of a tree splits into the entries below it, at most one
entry that is equivalent to it, and the entries above it (`exists_split`). `LowerBound` returns the
first entry that is not below the key and `UpperBound` the first one above it, so the range between
them is the middle part of the split (`bounds_exact`).
-/

set_option autoImplicit false
set_option relaxedAutoImplicit false

namespace StudStuff.RedBlackTree

open Lib

variable {Key : Type} {params : Params Key}

/-! ### Splitting a listing at a key -/

/-- The parts of a listing below a key, equivalent to it and above it. -/
structure Splits (comp : Key → Key → Bool) (key : Key)
    (entries smaller same greater : List (ℕ × Key)) : Prop where
  listing : entries = smaller ++ (same ++ greater)
  below : ∀ entry ∈ smaller, comp entry.2 key = true
  within : ∀ entry ∈ same, equivalent comp key entry.2 = true
  above : ∀ entry ∈ greater, comp key entry.2 = true
  single : same.length ≤ 1

section Split

variable {comp : Key → Key → Bool} {key : Key} {entries smaller same greater : List (ℕ × Key)}
  [IsStrictWeakOrder Key fun first second ↦ comp first second = true]

/-- An ascending listing splits at every key. -/
theorem exists_split
    (hascending : entries.Pairwise fun first second ↦ comp first.2 second.2 = true) (key : Key) :
    ∃ smaller same greater, Splits comp key entries smaller same greater := by
  induction entries with
  | nil => exact ⟨[], [], [], rfl, by simp, by simp, by simp, by simp⟩
  | cons head rest ih =>
    obtain ⟨habove, hrest⟩ := List.pairwise_cons.mp hascending
    by_cases hlt : comp head.2 key = true
    · obtain ⟨smaller, same, greater, hsplit⟩ := ih hrest
      refine ⟨head :: smaller, same, greater, ?_, ?_, hsplit.within, hsplit.above, hsplit.single⟩
      · rw [hsplit.listing, List.cons_append]
      · exact List.forall_mem_cons.mpr ⟨hlt, hsplit.below⟩
    by_cases hgt : comp key head.2 = true
    · refine ⟨[], [], head :: rest, rfl, by simp, by simp, ?_, by simp⟩
      intro entry hmem
      rcases List.mem_cons.mp hmem with rfl | hmem
      · exact hgt
      · exact weakOrder_trans hgt (habove entry hmem)
    · have hsame : equivalent comp key head.2 = true := by simp [equivalent, hlt, hgt]
      refine ⟨[], [head], rest, rfl, by simp, by simpa using hsame, ?_, by simp⟩
      intro entry hmem
      exact lt_of_equivalent_of_lt hsame (habove entry hmem)

/-- The first entry that is not below the key comes right after the smaller ones. -/
theorem Splits.find?_lower (h : Splits comp key entries smaller same greater) :
    (entries.find? fun entry ↦ !comp entry.2 key) = (same ++ greater).head? := by
  have hskip : (smaller.find? fun entry ↦ !comp entry.2 key) = none := by
    apply List.find?_eq_none.mpr
    intro entry hmem
    simp [h.below entry hmem]
  rw [h.listing, List.find?_append, hskip, Option.none_or]
  cases hrest : same ++ greater with
  | nil => rfl
  | cons entry rest =>
    have hentry : comp entry.2 key = false := by
      have hmem : entry ∈ same ++ greater := hrest ▸ List.mem_cons_self
      rcases List.mem_append.mp hmem with hmem | hmem
      · exact (equivalent_iff.mp (h.within entry hmem)).2
      · exact weakOrder_asymm (h.above entry hmem)
    rw [List.find?_cons, hentry]
    rfl

/-- The first entry above the key comes right after the equivalent one. -/
theorem Splits.find?_upper (h : Splits comp key entries smaller same greater) :
    (entries.find? fun entry ↦ comp key entry.2) = greater.head? := by
  have hskip : (smaller.find? fun entry ↦ comp key entry.2) = none := by
    apply List.find?_eq_none.mpr
    intro entry hmem
    simp [weakOrder_asymm (h.below entry hmem)]
  have hskip' : (same.find? fun entry ↦ comp key entry.2) = none := by
    apply List.find?_eq_none.mpr
    intro entry hmem
    simp [(equivalent_iff.mp (h.within entry hmem)).1]
  rw [h.listing, List.find?_append, hskip, Option.none_or, List.find?_append, hskip',
    Option.none_or]
  cases hrest : greater with
  | nil => rfl
  | cons entry rest =>
    rw [List.find?_cons, h.above entry (hrest ▸ List.mem_cons_self)]
    rfl

end Split

/-! ### The queries -/

/-- What the bound queries of a tree return for a key, given the listing of the tree. -/
structure ExactBounds (params : Params Key) (s : State Key) (key : Key)
    (entries : List (ℕ × Key)) : Prop where
  /-- The first entry that is not below the key, or the end. -/
  lowerBound : lowerBound params key s =
    .ok (.ofEntry (entries.find? fun entry ↦ !params.comp entry.2 key)) s
  /-- The first entry that the key is below, or the end. -/
  upperBound : upperBound params key s =
    .ok (.ofEntry (entries.find? fun entry ↦ params.comp key entry.2)) s
  /-- The two together. -/
  equalRange : equalRange params key s =
    .ok (.ofEntry (entries.find? fun entry ↦ !params.comp entry.2 key),
      .ofEntry (entries.find? fun entry ↦ params.comp key entry.2)) s
  /-- The range splits the listing into what is below the key, what is equivalent to it and what
  is above it. -/
  splits : ∃ smaller same greater, Splits params.comp key entries smaller same greater ∧
    RedBlackTree.equalRange params key s =
      .ok (.ofEntry (same ++ greater).head?, .ofEntry greater.head?) s

section Queries

variable [IsStrictWeakOrder Key fun first second ↦ params.comp first second = true]
  {s background : State Key} {tree : Tree Key}

/-- `UpperBound` returns a position. -/
theorem Laid.upperBound (h : Laid params s background tree) (key : Key) :
    upperBound params key s =
      .ok (.ofEntry (tree.inorder.find? fun entry ↦ params.comp key entry.2)) s := by
  rw [h.state]
  exact upperBound_lay h.good.sorted h.fits

/-- The bound queries are exact. The in-order listing of the tree is what the root represents. -/
theorem bounds_exact (hs : s.Reachable params) (key : Key) :
    ∃ tree, Represents s.heap .nil s.root tree ∧ s.Lists params tree.inorder ∧
      ExactBounds params s key tree.inorder := by
  obtain ⟨background, tree, hlaid⟩ := hs.laid
  refine ⟨tree, hlaid.represents, hlaid.lists, ?_⟩
  have hlower := hlaid.lowerBound key
  have hupper := hlaid.upperBound key
  have hrange : equalRange params key s = _ := (bind_ok hlower).trans (bind_ok hupper)
  obtain ⟨smaller, same, greater, hsplit⟩ := exists_split hlaid.lists.ascending key
  refine ⟨hlower, hupper, hrange, smaller, same, greater, hsplit, ?_⟩
  rw [hrange, hsplit.find?_lower, hsplit.find?_upper]
  rfl

end Queries

/-- A tree of six keys, asked for one of them. -/
theorem bounds_exact_several : ∃ s : State ℕ, Represents s.heap .nil s.root severalTree ∧
    s.Lists Params.naturals severalTree.inorder ∧
      ExactBounds Params.naturals s 12 severalTree.inorder := by
  obtain ⟨s, hs, -, htree⟩ := State.exists_severalOps
  obtain ⟨tree, hrepresents, hlists, hexact⟩ := bounds_exact hs 12
  obtain rfl := hrepresents.unique htree
  exact ⟨s, htree, hlists, hexact⟩

end StudStuff.RedBlackTree
