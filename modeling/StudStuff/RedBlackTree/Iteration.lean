import StudStuff.RedBlackTree.Positions

/-!
# Iterating forwards

`Iterator.advance` is `++` applied a number of times. From an entry of the listing it goes on along
the listing (`Laid.advance`), so `begin` enumerates the tree (`forward_iteration`).

An iterator that `Find` returns has its own node for a sentinel. `++` takes it for the end and does
not move it, so it agrees with the iterator of `LowerBound` only where no equivalent key is stored
(`findAgrees_iff`).
-/

set_option autoImplicit false
set_option relaxedAutoImplicit false

namespace StudStuff.RedBlackTree

open Lib

variable {Key : Type} {params : Params Key}

/-! ### Enumeration -/

/-- `++` applied a number of times. -/
def Iterator.advance (params : Params Key) : ℕ → Iterator → TreeM Key Iterator
  | 0, it => return it
  | count + 1, it => do advance params count (← it.increment params)

/-- The nodes of a tree with their keys, in ascending order. -/
structure State.Lists (params : Params Key) (s : State Key) (entries : List (ℕ × Key)) :
    Prop where
  mem_iff : ∀ entry, entry ∈ entries ↔ s.Stores entry
  ascending : entries.Pairwise fun first second ↦ params.comp first.2 second.2 = true
  length : entries.length = s.size

namespace Laid

variable {s background : State Key} {tree : Tree Key}

/-- The listing of the tree. -/
theorem lists (h : Laid params s background tree) : s.Lists params tree.inorder := by
  refine ⟨fun entry ↦ (h.stores_iff entry).symm, List.pairwise_map.mp h.good.sorted, ?_⟩
  rw [Tree.length_inorder, h.size_eq]

/-- `++` applied a number of times goes on along the listing. -/
theorem advance (h : Laid params s background tree) (hplain : tree.NoShortcut params.eq)
    {smaller greater : List (ℕ × Key)} (hcut : tree.inorder = smaller ++ greater) (count : ℕ) :
    (Iterator.ofEntry greater.head?).advance params count s =
      .ok (.ofEntry greater[count]?) s := by
  induction count generalizing smaller greater with
  | zero => rw [Iterator.advance, pure_apply, List.head?_eq_getElem?]
  | succ count ih =>
    rw [Iterator.advance]
    cases greater with
    | nil =>
      refine (bind_ok (increment_end params s)).trans ?_
      exact ih hcut
    | cons entry rest =>
      refine (bind_ok (h.increment hplain hcut)).trans ?_
      have hcut' : tree.inorder = (smaller ++ [entry]) ++ rest := by simp [hcut]
      refine (ih hcut').trans ?_
      rw [List.getElem?_cons_succ]

end Laid

/-- Forward iteration enumerates the tree. From `begin`, the iterators after each number of `++` are
at the stored keys in ascending order, then at the end. Of any iterator that is not at the end, `++`
is at the least key above. -/
theorem forward_iteration [params.Lawful] {s : State Key} (hs : s.Reachable params) :
    (∃ entries, s.Lists params entries ∧
      (∀ entry ∈ entries, (Iterator.ofEntry (some entry)).deref s = .ok entry.2 s) ∧
      ∀ count, (do (← begin).advance params count) s = .ok (.ofEntry entries[count]?) s) ∧
    ∀ it, Returned params s it → it ≠ endIterator →
      ∃ key next, it.deref s = .ok key s ∧ it.increment params s = .ok next s ∧
        s.IsNext params key next := by
  obtain ⟨background, tree, hlaid⟩ := hs.laid
  have hplain : tree.NoShortcut params.eq := hlaid.good.sorted.noShortcut
  refine ⟨⟨tree.inorder, hlaid.lists, fun entry ↦ hlaid.deref, fun count ↦ ?_⟩,
    fun it hreturned hend ↦ ?_⟩
  · have hbegin : begin s = .ok (.ofEntry tree.inorder.head?) s := by
      rw [hlaid.state]
      exact begin_lay hlaid.fits
    have hcut : tree.inorder = [] ++ tree.inorder := rfl
    exact (bind_ok hbegin).trans (hlaid.advance hplain hcut count)
  · have hpoints := (hreturned.position hs).resolve_left hend
    obtain ⟨entry, hmem, rfl⟩ := hlaid.exists_entry hpoints
    obtain ⟨smaller, greater, hcut⟩ := List.append_of_mem hmem
    exact ⟨entry.2, .ofEntry greater.head?, hlaid.deref hmem, hlaid.increment hplain hcut,
      hlaid.isNext hcut⟩

/-- A tree of six keys after several operations. -/
theorem forward_iteration_several : ∃ s : State ℕ,
    Represents s.heap .nil s.root severalTree ∧
    (∃ entries, s.Lists Params.naturals entries ∧
      (∀ entry ∈ entries, (Iterator.ofEntry (some entry)).deref s = .ok entry.2 s) ∧
      ∀ count, (do (← begin).advance Params.naturals count) s =
        .ok (.ofEntry entries[count]?) s) ∧
    ∀ it, Returned Params.naturals s it → it ≠ endIterator →
      ∃ key next, it.deref s = .ok key s ∧ it.increment Params.naturals s = .ok next s ∧
        s.IsNext Params.naturals key next := by
  obtain ⟨s, hs, -, htree⟩ := State.exists_severalOps
  exact ⟨s, htree, forward_iteration hs⟩

/-! ### The iterator of `Find` -/

/-- What `Find` should return: where an equivalent key is stored, the iterator of `LowerBound`, and
an iterator that advances like it along the keys that are not below; else the end. -/
def FindAgrees (params : Params Key) (s : State Key) (key : Key) : Prop :=
  ∃ found bound, find params key s = .ok found s ∧ lowerBound params key s = .ok bound s ∧
    ((∃ entry, s.Stores entry ∧ equivalent params.comp key entry.2 = true) →
      found = bound ∧
      (∀ count, found.advance params count s = bound.advance params count s) ∧
      ∃ entries : List (ℕ × Key),
        (∀ entry, entry ∈ entries ↔ s.Stores entry ∧ params.comp entry.2 key = false) ∧
        (entries.Pairwise fun first second ↦ params.comp first.2 second.2 = true) ∧
        ∀ count, found.advance params count s = .ok (.ofEntry entries[count]?) s) ∧
    ((∀ entry, s.Stores entry → equivalent params.comp key entry.2 = false) →
      found = endIterator)

section Find

variable [IsStrictWeakOrder Key fun first second ↦ params.comp first second = true]
  {s background : State Key} {tree : Tree Key}

/-- `Find` returns a node that is its own sentinel. -/
theorem Laid.find (h : Laid params s background tree) (key : Key) :
    find params key s = .ok
      ⟨landing .nil (tree.inorder.find? fun entry ↦ equivalent params.comp key entry.2),
        landing .nil (tree.inorder.find? fun entry ↦ equivalent params.comp key entry.2)⟩ s := by
  rw [h.state]
  exact bind_ok (findNode_lay h.good.sorted h.fits)

/-- `LowerBound` returns a position. -/
theorem Laid.lowerBound (h : Laid params s background tree) (key : Key) :
    lowerBound params key s =
      .ok (.ofEntry (tree.inorder.find? fun entry ↦ !params.comp entry.2 key)) s := by
  rw [h.state]
  exact lowerBound_lay h.good.sorted h.fits

/-- `Find` of a key that is not stored returns the end. -/
theorem findAgrees_of_absent (hs : s.Reachable params) {key : Key}
    (habsent : ∀ entry, s.Stores entry → equivalent params.comp key entry.2 = false) :
    FindAgrees params s key := by
  obtain ⟨background, tree, hlaid⟩ := hs.laid
  have hnone : (tree.inorder.find? fun entry ↦ equivalent params.comp key entry.2) = none := by
    rw [List.find?_eq_none]
    intro entry hmem
    rw [habsent entry ((hlaid.stores_iff entry).mpr hmem)]
    exact Bool.false_ne_true
  refine ⟨_, _, hlaid.find key, hlaid.lowerBound key, ?_, fun _ ↦ ?_⟩
  · rintro ⟨entry, hstores, hentry⟩
    rw [habsent entry hstores] at hentry
    cases hentry
  · rw [hnone]
    rfl

/-- `Find` of a key that is stored returns another iterator than `LowerBound`. -/
theorem not_findAgrees_of_stored (hs : s.Reachable params) {key : Key}
    (hstored : ∃ entry, s.Stores entry ∧ equivalent params.comp key entry.2 = true) :
    ¬FindAgrees params s key := by
  obtain ⟨background, tree, hlaid⟩ := hs.laid
  rintro ⟨found, bound, hfound, hbound, hagree, -⟩
  cases (hlaid.find key).symm.trans hfound
  cases (hlaid.lowerBound key).symm.trans hbound
  have hsentinel : landing .nil
      (tree.inorder.find? fun entry ↦ equivalent params.comp key entry.2) = .nil :=
    congrArg Iterator.nil (hagree hstored).1
  cases hfind : tree.inorder.find? fun entry ↦ equivalent params.comp key entry.2 with
  | none =>
    obtain ⟨entry, hstores, hentry⟩ := hstored
    exact List.find?_eq_none.mp hfind entry ((hlaid.stores_iff entry).mp hstores) hentry
  | some entry =>
    rw [hfind] at hsentinel
    cases hsentinel

/-- `Find` returns what it should exactly for the keys that are not stored. -/
theorem findAgrees_iff (hs : s.Reachable params) (key : Key) :
    FindAgrees params s key ↔
      ∀ entry, s.Stores entry → equivalent params.comp key entry.2 = false := by
  constructor
  · intro hagree entry hstores
    by_contra hentry
    exact not_findAgrees_of_stored hs ⟨entry, hstores, Bool.eq_true_of_not_eq_false hentry⟩ hagree
  · exact findAgrees_of_absent hs

end Find

/-- A tree of six keys, searched for one that is between two of them. -/
theorem findAgrees_iff_several : ∃ s : State ℕ, Represents s.heap .nil s.root severalTree ∧
    (FindAgrees Params.naturals s 7 ↔
      ∀ entry, s.Stores entry → equivalent Params.naturals.comp 7 entry.2 = false) := by
  obtain ⟨s, hs, -, htree⟩ := State.exists_severalOps
  exact ⟨s, htree, findAgrees_iff hs 7⟩

/-- In the same tree, `Find` of the stored 12 is not `LowerBound` of it. -/
theorem find_breaks_stored : ∃ s : State ℕ, s.Reachable Params.naturals ∧
    Represents s.heap .nil s.root severalTree ∧ s.Stores (6, 12) ∧
      ¬FindAgrees Params.naturals s 12 := by
  obtain ⟨s, hs, -, htree⟩ := State.exists_severalOps
  obtain ⟨background, hlaid⟩ := hs.laid_of_represents htree
  have hstores : s.Stores (6, 12) := (hlaid.stores_iff _).mpr (by decide)
  exact ⟨s, hs, htree, hstores, not_findAgrees_of_stored hs ⟨(6, 12), hstores, rfl⟩⟩

end StudStuff.RedBlackTree
