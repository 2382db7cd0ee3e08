import StudStuff.RedBlackTree.Iteration

/-!
# Erasing by position

`Erase` takes one entry out of the listing and leaves the others where they are, with their nodes
and their keys (`Laid.erasedAt`). The loop that erases the keys with a property (`eraseIf`) keeps a
cut of the listing: before it are the entries that were kept, after it those still to be visited.
`erase_exact` puts both together.
-/

set_option autoImplicit false
set_option relaxedAutoImplicit false

namespace StudStuff.RedBlackTree

open Lib

variable {Key : Type} {params : Params Key}

/-! ### One erasure -/

/-- What `Erase` at an entry does when it returns an iterator. -/
structure ErasedAt (params : Params Key) (s s' : State Key) (entry : ℕ × Key) (next : Iterator) :
    Prop where
  /-- The iterator is at the next key. -/
  isNext : s.IsNext params entry.2 next
  /-- The iterator can be used in the tree that is left. -/
  usable : next = endIterator ∨ s'.Points next
  /-- The other nodes stay in the tree with their keys. -/
  stores : ∀ other, s'.Stores other ↔ s.Stores other ∧ other ≠ entry
  size : s'.size + 1 = s.size
  /-- One node is freed. -/
  live : s'.heap.live = s.heap.live.erase entry.1
  /-- An iterator to another element stays valid. -/
  held : ∀ other, s.Stores other → other ≠ entry →
    (Iterator.ofEntry (some other)).deref s' = .ok other.2 s' ∧
      ∃ following, (Iterator.ofEntry (some other)).increment params s' = .ok following s' ∧
        s'.IsNext params other.2 following

/-! ### The loop -/

/-- `if (P(*it)) it = tree.Erase(it); else ++it;` as long as `it != tree.end()`. -/
def eraseIfLoop (params : Params Key) (predicate : Key → Bool) : ℕ → Iterator → TreeM Key Unit
  | 0, _ => fault .outOfFuel
  | bound + 1, it => do
    if it = endIterator then
      return ()
    else if predicate (← it.deref) then
      eraseIfLoop params predicate bound (← erase params it)
    else
      eraseIfLoop params predicate bound (← it.increment params)

/-- The loop from `begin`. -/
def eraseIf (params : Params Key) (predicate : Key → Bool) : TreeM Key Unit := do
  eraseIfLoop params predicate (← fuel) (← begin)

namespace Laid

variable [params.Lawful] {s background : State Key} {tree : Tree Key}

/-- One entry goes. -/
theorem erasedAt (h : Laid params s background tree) {entry : ℕ × Key} (hstores : s.Stores entry)
    (sentinel : Ptr) : ∃ next s', RedBlackTree.erase params ⟨.node entry.1, sentinel⟩ s =
      .ok next s' ∧ ErasedAt params s s' entry next := by
  obtain ⟨smaller, greater, hcut⟩ := List.append_of_mem ((h.stores_iff entry).mp hstores)
  obtain ⟨s', background', tree', hrun, hlaid', hlist, hheap⟩ :=
    h.erase h.good.sorted.noShortcut hcut sentinel
  have hrest (other : ℕ × Key) : s'.Stores other ↔ s.Stores other ∧ other ≠ entry := by
    have hnodup := h.fits.nodup.of_map
    rw [hcut, List.nodup_middle, List.nodup_cons] at hnodup
    rw [hlaid'.stores_iff, h.stores_iff, hlist, hcut, List.mem_append, List.mem_append,
      List.mem_cons]
    constructor
    · intro hmem
      refine ⟨hmem.imp_right Or.inr, fun hother ↦ hnodup.1 (hother ▸ List.mem_append.mpr hmem)⟩
    · rintro ⟨hmem | hother | hmem, hne⟩
      · exact Or.inl hmem
      · exact absurd hother hne
      · exact Or.inr hmem
  refine ⟨_, s', hrun, h.isNext hcut, ?_, hrest, ?_, ?_, fun other hother hne ↦ ?_⟩
  · cases greater with
    | nil => exact Or.inl rfl
    | cons next rest =>
      refine Or.inr ⟨rfl, next.1, rfl, (hlaid'.reaches_iff _).mpr (List.mem_map_of_mem ?_)⟩
      simp [hlist]
  · rw [hlaid'.size_eq, h.size_eq, ← Tree.length_inorder, ← Tree.length_inorder, hlist, hcut]
    simp only [List.length_append, List.length_cons]
    omega
  · have hnodup := h.fits.nodup
    have hfree := h.fits.free entry.1 (List.mem_map_of_mem (by simp [hcut]))
    rw [Heap.cell_eq_none_iff] at hfree
    rw [Tree.addresses, hcut, List.map_append, List.map_cons, List.nodup_middle,
      List.nodup_cons] at hnodup
    ext address
    rw [Finset.mem_erase, hlaid'.mem_live, h.mem_live, hheap, Tree.addresses, Tree.addresses, hlist,
      hcut]
    simp only [List.map_append, List.map_cons, List.mem_append, List.mem_cons] at hnodup ⊢
    constructor
    · rintro (hmem | hmem)
      · exact ⟨fun haddress ↦ hfree (haddress ▸ hmem), Or.inl hmem⟩
      · exact ⟨fun haddress ↦ hnodup.1 (haddress ▸ hmem), Or.inr (hmem.imp_right Or.inr)⟩
    · rintro ⟨hne, hmem | hmem | haddress | hmem⟩
      · exact Or.inl hmem
      · exact Or.inr (Or.inl hmem)
      · exact absurd haddress hne
      · exact Or.inr (Or.inr hmem)
  · have hmem := (hlaid'.stores_iff other).mp ((hrest other).mpr ⟨hother, hne⟩)
    obtain ⟨smaller', greater', hcut'⟩ := List.append_of_mem hmem
    exact ⟨hlaid'.deref hmem, _, hlaid'.increment hlaid'.good.sorted.noShortcut hcut',
      hlaid'.isNext hcut'⟩

/-- The loop keeps the entries before the cut and visits those after it. -/
theorem eraseIfLoop (h : Laid params s background tree) (predicate : Key → Bool)
    {kept rest : List (ℕ × Key)} {bound : ℕ} (hcut : tree.inorder = kept ++ rest)
    (hbound : rest.length < bound) :
    ∃ s' background' tree',
      RedBlackTree.eraseIfLoop params predicate bound (.ofEntry rest.head?) s = .ok () s' ∧
      Laid params s' background' tree' ∧
      tree'.inorder = kept ++ rest.filter fun entry ↦ !predicate entry.2 := by
  induction rest generalizing s background tree kept bound with
  | nil =>
    obtain ⟨bound, rfl⟩ : ∃ count, bound = count + 1 := ⟨bound - 1, by omega⟩
    refine ⟨s, background, tree, ?_, h, hcut⟩
    rw [RedBlackTree.eraseIfLoop, List.head?_nil, Iterator.ofEntry_none, if_pos rfl, pure_apply]
  | cons entry rest ih =>
    obtain ⟨bound, rfl⟩ : ∃ count, bound = count + 1 := ⟨bound - 1, by omega⟩
    have hbound' : rest.length < bound := Nat.lt_of_succ_lt_succ hbound
    have hmem : entry ∈ tree.inorder := by simp [hcut]
    rw [RedBlackTree.eraseIfLoop, List.head?_cons, if_neg (Iterator.ofEntry_ne_end entry)]
    cases hpredicate : predicate entry.2 with
    | true =>
      obtain ⟨s', background', tree', herase, hlaid', hlist, -⟩ :=
        h.erase h.good.sorted.noShortcut hcut .nil
      obtain ⟨s'', background'', tree'', hrun, hlaid'', hlist''⟩ := ih hlaid' hlist hbound'
      refine ⟨s'', background'', tree'', ?_, hlaid'', ?_⟩
      · refine (bind_ok (h.deref hmem)).trans ?_
        rw [if_pos hpredicate]
        exact (bind_ok herase).trans hrun
      · rw [hlist'', List.filter_cons_of_neg (by simp [hpredicate])]
    | false =>
      have hcut' : tree.inorder = (kept ++ [entry]) ++ rest := by simp [hcut]
      obtain ⟨s', background', tree', hrun, hlaid', hlist⟩ := ih h hcut' hbound'
      refine ⟨s', background', tree', ?_, hlaid', ?_⟩
      · refine (bind_ok (h.deref hmem)).trans ?_
        rw [if_neg (by simp [hpredicate])]
        exact (bind_ok (h.increment h.good.sorted.noShortcut hcut)).trans hrun
      · rw [hlist, List.filter_cons_of_pos (by simp [hpredicate])]
        simp

end Laid

/-- Erasing by position is exact and stable. At any position other than the end, `Erase` takes away
the node of that position and no other. The loop that erases the keys with a property returns, and
leaves the keys without it. -/
theorem erase_exact [params.Lawful] {s : State Key} (hs : s.Reachable params) :
    (∀ entry sentinel, s.Stores entry → ∃ next s',
      erase params ⟨.node entry.1, sentinel⟩ s = .ok next s' ∧
        ErasedAt params s s' entry next) ∧
    ∀ predicate : Key → Bool, ∃ s', eraseIf params predicate s = .ok () s' ∧
      ∀ entry, s'.Stores entry ↔ s.Stores entry ∧ predicate entry.2 = false := by
  obtain ⟨background, tree, hlaid⟩ := hs.laid
  refine ⟨fun entry sentinel hstores ↦ hlaid.erasedAt hstores sentinel, fun predicate ↦ ?_⟩
  have hbegin : begin s = .ok (.ofEntry tree.inorder.head?) s := by
    rw [hlaid.state]
    exact begin_lay hlaid.fits
  have hbound : tree.inorder.length < s.heap.live.card + 2 := by
    have hlive := size_le_live hlaid.fits
    rw [← hlaid.state] at hlive
    rw [Tree.length_inorder]
    omega
  have hcut : tree.inorder = [] ++ tree.inorder := rfl
  obtain ⟨s', background', tree', hrun, hlaid', hlist⟩ :=
    hlaid.eraseIfLoop predicate hcut hbound
  refine ⟨s', ?_, fun entry ↦ ?_⟩
  · unfold eraseIf
    refine (bind_ok (fuel_apply s)).trans ?_
    exact (bind_ok hbegin).trans hrun
  · rw [hlaid'.stores_iff, hlist, List.nil_append, List.mem_filter, hlaid.stores_iff,
      Bool.not_eq_true']

/-- A tree of six keys after several operations. -/
theorem erase_exact_several : ∃ s : State ℕ, Represents s.heap .nil s.root severalTree ∧
    (∀ entry sentinel, s.Stores entry → ∃ next s',
      erase Params.naturals ⟨.node entry.1, sentinel⟩ s = .ok next s' ∧
        ErasedAt Params.naturals s s' entry next) ∧
    ∀ predicate : ℕ → Bool, ∃ s', eraseIf Params.naturals predicate s = .ok () s' ∧
      ∀ entry, s'.Stores entry ↔ s.Stores entry ∧ predicate entry.2 = false := by
  obtain ⟨s, hs, -, htree⟩ := State.exists_severalOps
  exact ⟨s, htree, erase_exact hs⟩

end StudStuff.RedBlackTree
