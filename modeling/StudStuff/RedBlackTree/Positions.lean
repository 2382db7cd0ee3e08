import StudStuff.RedBlackTree.Runs

/-!
# Positions of reachable trees

A member function of a tree object starts in a state in which a good tree is laid out
(`State.Reachable.laid`). What such a state stores is read off the heap (`State.Stores`), and the
listing of the tree is exactly that. Every entry cuts the listing in two.

`Returned` are the iterators that calls on a tree return, however long ago, as long as their node
is in the tree: each is at the end or at an entry of the listing.
-/

set_option autoImplicit false
set_option relaxedAutoImplicit false

namespace StudStuff.RedBlackTree

open Lib

variable {Key : Type} {params : Params Key}

/-! ### States of reachable trees -/

/-- A member function of a tree object starts in this state, in a world that a program reaches. -/
def State.Reachable (params : Params Key) (s : State Key) : Prop :=
  ∃ world name object, RedBlackTree.Reachable params world ∧
    world.core.objects (.named name) = some object ∧
      s = world.enter (.shared params) (.named name) object

/-- A node of the tree with its key. -/
def State.Stores (s : State Key) (entry : ℕ × Key) : Prop :=
  Reaches s.heap s.root entry.1 ∧ ∃ node, s.heap.cell entry.1 = some node ∧ node.data = entry.2

/-- A node has one key. -/
theorem State.Stores.eq_of_address {s : State Key} {entry other : ℕ × Key} (h : s.Stores entry)
    (hother : s.Stores other) (haddress : entry.1 = other.1) : entry = other := by
  obtain ⟨-, node, hnode, hdata⟩ := h
  obtain ⟨-, node', hnode', hdata'⟩ := hother
  rw [haddress, hnode', Option.some.injEq] at hnode
  exact Prod.ext haddress (by rw [← hdata, ← hdata', hnode])

/-- A good tree is laid out over a background. -/
structure Laid (params : Params Key) (s background : State Key) (tree : Tree Key) : Prop where
  state : s = lay background tree
  good : tree.Good params.comp
  fits : Fits background tree
  size : background.size = tree.size
  nil : background.nilNode.color = .black
  fuse : background.fuse = none

/-- Every reachable tree is laid out somehow. -/
theorem State.Reachable.laid
    [IsStrictWeakOrder Key fun first second ↦ params.comp first second = true] {s : State Key}
    (hs : s.Reachable params) : ∃ background tree, Laid params s background tree := by
  obtain ⟨world, name, object, ⟨trace, hrun⟩, hobject, rfl⟩ := hs
  obtain ⟨⟨shapes, hinv⟩, -, hsentinels⟩ := hrun.invariant fun _ ↦ isSentinel_sentinel params
  refine ⟨_, shapes (.named name), hinv.enter hobject _ _, hinv.good _, hinv.fits _ _, rfl, ?_,
    hinv.fuse⟩
  have hsentinel := hsentinels (.named name)
  exact congrArg RBNode.color hsentinel

/-- A tree object of a program that is run, when it passes a test. -/
theorem State.exists_of_testAfter (params : Params Key) (ops : List (Op Key))
    (test : State Key → Bool)
    (htest : testAfter (.shared params)
      (fun world ↦ (world.core.objects (.named 0)).any fun object ↦
        test (world.enter (.shared params) (.named 0) object)) ops
      ⟨Core.start Key, .sentinel params⟩ = true) :
    ∃ s : State Key, s.Reachable params ∧ test s = true := by
  obtain ⟨trace, world, hrun, -, hworld⟩ := exists_run _ _ ops _ htest
  obtain ⟨object, hobject, hs⟩ := (Option.any_eq_true _ _).mp hworld
  exact ⟨_, ⟨world, 0, object, ⟨trace, hrun⟩, hobject, rfl⟩, hs⟩

/-- A tree of six keys that two removals, a copy and a swap have left. -/
theorem State.exists_severalOps : ∃ s : State ℕ, s.Reachable Params.naturals ∧ s.size = 6 ∧
    Represents s.heap .nil s.root severalTree := by
  obtain ⟨trace, world, hrun, -, hobject, hrepresents, -, -⟩ := RedBlackTree.exists_severalOps
  exact ⟨_, ⟨world, 0, _, ⟨trace, hrun⟩, hobject, rfl⟩, rfl, hrepresents⟩

/-! ### Cuts of the listing -/

/-- The keys before and after a cut. -/
theorem Tree.Sorted.cut {comp : Key → Key → Bool} {tree : Tree Key} (h : tree.Sorted comp)
    {smaller greater : List (ℕ × Key)} {entry : ℕ × Key}
    (hcut : tree.inorder = smaller ++ entry :: greater) :
    (∀ other ∈ smaller, comp other.2 entry.2 = true) ∧
      ∀ other ∈ greater, comp entry.2 other.2 = true := by
  rw [Sorted, keys, hcut, List.map_append, List.map_cons, List.pairwise_append,
    List.pairwise_cons] at h
  obtain ⟨-, ⟨hgreater, -⟩, hsmaller⟩ := h
  refine ⟨fun other hmem ↦ ?_, fun other hmem ↦ hgreater _ (List.mem_map_of_mem hmem)⟩
  exact hsmaller _ (List.mem_map_of_mem hmem) _ (List.mem_cons_self ..)

/-- The first entry after a cut has the least key above the key of the cut. -/
theorem Tree.Sorted.least {comp : Key → Key → Bool}
    [IsStrictWeakOrder Key fun first second ↦ comp first second = true] {tree : Tree Key}
    (h : tree.Sorted comp) {smaller greater : List (ℕ × Key)} {entry next : ℕ × Key}
    (hcut : tree.inorder = smaller ++ entry :: next :: greater) {other : ℕ × Key}
    (hmem : other ∈ tree.inorder) (habove : comp entry.2 other.2 = true) :
    comp other.2 next.2 = false := by
  have hentry := h.cut hcut
  have hcut' : tree.inorder = (smaller ++ [entry]) ++ next :: greater := by simp [hcut]
  have hnext := h.cut hcut'
  rw [hcut] at hmem
  rcases List.mem_append.mp hmem with hmem | hmem
  · have hbelow := weakOrder_asymm (hentry.1 other hmem)
    rw [habove] at hbelow
    cases hbelow
  rcases List.mem_cons.mp hmem with rfl | hmem
  · exact absurd (habove.symm.trans (weakOrder_irrefl other.2)) Bool.noConfusion
  rcases List.mem_cons.mp hmem with rfl | hmem
  · exact weakOrder_irrefl _
  · exact weakOrder_asymm (hnext.2 other hmem)

/-- Around an entry with an equivalent key are the entries with other keys. -/
theorem Tree.Sorted.mem_rest_iff {comp : Key → Key → Bool}
    [IsStrictWeakOrder Key fun first second ↦ comp first second = true] {tree : Tree Key}
    (h : tree.Sorted comp) {smaller greater : List (ℕ × Key)} {entry : ℕ × Key} {key : Key}
    (hcut : tree.inorder = smaller ++ entry :: greater)
    (hentry : equivalent comp key entry.2 = true) (other : ℕ × Key) :
    other ∈ smaller ++ greater ↔ other ∈ tree.inorder ∧ equivalent comp key other.2 = false := by
  have hkeys : (tree.orderedSet h).elements =
      smaller.map Prod.snd ++ entry.2 :: greater.map Prod.snd := by
    simp [orderedSet, keys, hcut]
  obtain ⟨hsmaller, hgreater⟩ := OrderedSet.cut_of_equivalent hkeys hentry
  rw [hcut, List.mem_append, List.mem_append, List.mem_cons]
  constructor
  · intro hmem
    refine ⟨hmem.imp_right Or.inr, OrderedSet.not_equivalent_of_cut hsmaller hgreater ?_⟩
    rw [← List.map_append]
    exact List.mem_map_of_mem (List.mem_append.mpr hmem)
  · rintro ⟨hmem | rfl | hmem, hother⟩
    · exact Or.inl hmem
    · rw [hentry] at hother
      cases hother
    · exact Or.inr hmem

/-! ### Iterators -/

/-- The iterator at an entry of the listing, and the end when there is none. -/
def Iterator.ofEntry (entry : Option (ℕ × Key)) : Iterator := ⟨landing .nil entry, .nil⟩

@[simp] theorem Iterator.ofEntry_none : ofEntry (none : Option (ℕ × Key)) = endIterator := rfl

theorem Iterator.ofEntry_some (entry : ℕ × Key) : ofEntry (some entry) = ⟨.node entry.1, .nil⟩ :=
  rfl

theorem Iterator.ofEntry_ne_end (entry : ℕ × Key) : ofEntry (some entry) ≠ endIterator := by
  rw [ofEntry_some, endIterator]
  simp

/-- An iterator to a node of the tree. -/
def State.Points (s : State Key) (it : Iterator) : Prop :=
  it.nil = .nil ∧ ∃ address, it.node = .node address ∧ Reaches s.heap s.root address

/-- An iterator that a call on the tree has returned. One that was returned before other calls can
be used as long as its node is in the tree. -/
inductive Returned (params : Params Key) : State Key → Iterator → Prop
  | ofBegin {s : State Key} {it : Iterator} (hrun : begin s = .ok it s) : Returned params s it
  | ofEnd (s : State Key) : Returned params s endIterator
  | ofLowerBound {s : State Key} {it : Iterator} (key : Key)
      (hrun : lowerBound params key s = .ok it s) : Returned params s it
  | ofUpperBound {s : State Key} {it : Iterator} (key : Key)
      (hrun : upperBound params key s = .ok it s) : Returned params s it
  | ofInsert {s s' : State Key} {it : Iterator} (key : Key) (hs : s.Reachable params)
      (hrun : insert params key s = .ok it s') : Returned params s' it
  | kept {s s' : State Key} {it : Iterator} (hreturned : Returned params s it)
      (hpoints : s'.Points it) : Returned params s' it

/-- An iterator is at the least key above a given one, or at the end if no key is above. -/
def State.IsNext (params : Params Key) (s : State Key) (key : Key) (next : Iterator) : Prop :=
  (next = endIterator ∧ ∀ entry, s.Stores entry → params.comp key entry.2 = false) ∨
    ∃ entry, next = ⟨.node entry.1, .nil⟩ ∧ s.Stores entry ∧ params.comp key entry.2 = true ∧
      ∀ other, s.Stores other → params.comp key other.2 = true →
        params.comp other.2 entry.2 = false

/-- The nodes below the root of a laid out tree. -/
theorem reaches_lay {background : State Key} {tree : Tree Key} (hfits : Fits background tree)
    (address : ℕ) : Reaches (lay background tree).heap (lay background tree).root address ↔
      address ∈ tree.addresses :=
  ((present_lay background tree).represents hfits.nodup).reaches_iff address

namespace Laid

variable {s background : State Key} {tree : Tree Key}

theorem size_eq (h : Laid params s background tree) : s.size = tree.size := by
  rw [h.state, size_lay, h.size]

/-- The root pointer represents the tree. -/
theorem represents (h : Laid params s background tree) : Represents s.heap .nil s.root tree := by
  rw [h.state]
  exact (present_lay background tree).represents h.fits.nodup

/-- The live nodes are those of the tree and of the background. -/
theorem mem_live (h : Laid params s background tree) (address : ℕ) :
    address ∈ s.heap.live ↔ address ∈ background.heap.live ∨ address ∈ tree.addresses := by
  rw [h.state, live_lay, Finset.mem_union, List.mem_toFinset]

/-- The nodes below the root are those of the tree. -/
theorem reaches_iff (h : Laid params s background tree) (address : ℕ) :
    Reaches s.heap s.root address ↔ address ∈ tree.addresses := by
  rw [h.state]
  exact reaches_lay h.fits address

/-- The state stores the entries of the listing. -/
theorem stores_iff (h : Laid params s background tree) (entry : ℕ × Key) :
    s.Stores entry ↔ entry ∈ tree.inorder := by
  have hcell {other : ℕ × Key} (hmem : other ∈ tree.inorder) :
      ∃ node, s.heap.cell other.1 = some node ∧ node.data = other.2 := by
    obtain ⟨color, left, right, frames, hfocus⟩ := exists_focus hmem
    have hfits := h.fits
    rw [hfocus] at hfits
    rw [h.state, hfocus]
    exact ⟨_, cell_focus hfits, rfl⟩
  constructor
  · rintro ⟨hreach, node, hnode, hdata⟩
    obtain ⟨other, hmem, hother⟩ := List.mem_map.mp ((h.reaches_iff _).mp hreach)
    obtain ⟨node', hnode', hdata'⟩ := hcell hmem
    rw [hother, hnode, Option.some.injEq] at hnode'
    have hentry : other = entry := Prod.ext hother (by rw [← hdata, ← hdata', hnode'])
    exact hentry ▸ hmem
  · intro hmem
    exact ⟨(h.reaches_iff _).mpr (List.mem_map_of_mem hmem), hcell hmem⟩

/-- An iterator to a node of the tree is at an entry of the listing. -/
theorem exists_entry (h : Laid params s background tree) {it : Iterator} (hpoints : s.Points it) :
    ∃ entry ∈ tree.inorder, it = .ofEntry (some entry) := by
  obtain ⟨node, sentinel⟩ := it
  obtain ⟨hnil, address, hnode, hreach⟩ := hpoints
  obtain ⟨entry, hmem, rfl⟩ := List.mem_map.mp ((h.reaches_iff address).mp hreach)
  refine ⟨entry, hmem, ?_⟩
  rw [Iterator.ofEntry_some, Iterator.mk.injEq]
  exact ⟨hnode, hnil⟩

/-- The entry after a cut is next. -/
theorem isNext [IsStrictWeakOrder Key fun first second ↦ params.comp first second = true]
    (h : Laid params s background tree) {smaller greater : List (ℕ × Key)} {entry : ℕ × Key}
    (hcut : tree.inorder = smaller ++ entry :: greater) :
    s.IsNext params entry.2 (.ofEntry greater.head?) := by
  cases greater with
  | nil =>
    refine Or.inl ⟨rfl, fun other hother ↦ ?_⟩
    rw [h.stores_iff, hcut, List.mem_append, List.mem_singleton] at hother
    rcases hother with hmem | rfl
    · exact weakOrder_asymm ((h.good.sorted.cut hcut).1 other hmem)
    · exact weakOrder_irrefl _
  | cons next rest =>
    refine Or.inr ⟨next, rfl, ?_, (h.good.sorted.cut hcut).2 next (List.mem_cons_self ..),
      fun other hother habove ↦ h.good.sorted.least hcut ((h.stores_iff other).mp hother) habove⟩
    rw [h.stores_iff, hcut]
    simp

/-- Dereferencing an iterator at an entry. -/
theorem deref (h : Laid params s background tree) {entry : ℕ × Key} (hmem : entry ∈ tree.inorder) :
    (Iterator.ofEntry (some entry)).deref s = .ok entry.2 s := by
  rw [h.state]
  exact deref_lay h.fits hmem .nil

/-- `operator++` at an entry goes to the entry after it. -/
theorem increment (h : Laid params s background tree) (hplain : tree.NoShortcut params.eq)
    {smaller greater : List (ℕ × Key)} {entry : ℕ × Key}
    (hcut : tree.inorder = smaller ++ entry :: greater) :
    (Iterator.ofEntry (some entry)).increment params s = .ok (.ofEntry greater.head?) s := by
  obtain ⟨color, left, right, frames, hfocus, -, rfl⟩ := exists_focus_of_cut hcut
  have hfits := h.fits
  have hstate := h.state
  rw [hfocus] at hfits hstate
  rw [hstate]
  refine (increment_run hfits).trans ?_
  rw [hplain _ _ _ _ _ _ hfocus, Option.none_or]
  rfl

/-- `operator++` at the end. -/
theorem increment_end (params : Params Key) (s : State Key) :
    endIterator.increment params s = .ok endIterator s :=
  rfl

/-- A program that transforms the tree. -/
theorem of_transforms (h : Laid params s background tree) {α : Type} {program : TreeM Key α}
    {value : α} {made freed : ℕ} {tree' : Tree Key} (hgood : tree'.Good params.comp)
    (hfits : Fits background tree')
    (hrun : Transforms program background tree value made freed tree') :
    ∃ s' background', program s = .ok value s' ∧ Laid params s' background' tree' ∧
      background'.heap = background.heap := by
  obtain ⟨parent, hprogram⟩ := hrun background.nilNode h.nil
  rw [h.state]
  exact ⟨_, background.after made freed tree'.size parent, hprogram,
    ⟨rfl, hgood, ⟨hfits.nodup, hfits.free⟩, rfl, h.nil, h.fuse⟩, rfl⟩

/-- `Erase` at an entry takes it out of the listing and returns the entry after it. -/
theorem erase (h : Laid params s background tree) (hplain : tree.NoShortcut params.eq)
    {smaller greater : List (ℕ × Key)} {entry : ℕ × Key}
    (hcut : tree.inorder = smaller ++ entry :: greater) (sentinel : Ptr) :
    ∃ s' background' tree', erase params ⟨.node entry.1, sentinel⟩ s =
        .ok (.ofEntry greater.head?) s' ∧
      Laid params s' background' tree' ∧ tree'.inorder = smaller ++ greater ∧
      background'.heap = background.heap := by
  obtain ⟨next, tree', hgood', hfits', hlist, -, -, hnext, hrun⟩ :=
    erase_spec_any h.good h.fits h.size hcut sentinel
  obtain rfl := hnext hplain
  obtain ⟨s', background', herase, hlaid', hheap⟩ := h.of_transforms hgood' hfits' hrun
  exact ⟨s', background', tree', herase, hlaid', hlist, hheap⟩

end Laid

/-! ### The iterators of a tree -/

section Returned

variable [IsStrictWeakOrder Key fun first second ↦ params.comp first second = true]

/-- The tree that the root represents is the one that is laid out. -/
theorem State.Reachable.laid_of_represents {s : State Key} {tree : Tree Key}
    (hs : s.Reachable params) (h : Represents s.heap .nil s.root tree) :
    ∃ background, Laid params s background tree := by
  obtain ⟨background, tree', hlaid⟩ := hs.laid
  obtain rfl := hlaid.represents.unique h
  exact ⟨background, hlaid⟩

/-- An iterator that was returned is at the end or at an entry. -/
theorem Returned.position {s : State Key} {it : Iterator} (h : Returned params s it)
    (hs : s.Reachable params) : it = endIterator ∨ s.Points it := by
  have hfound {background : State Key} {tree : Tree Key} (hlaid : Laid params s background tree)
      {entry : Option (ℕ × Key)} (hentry : ∀ other, entry = some other → other ∈ tree.inorder) :
      Iterator.ofEntry entry = endIterator ∨ s.Points (.ofEntry entry) := by
    cases entry with
    | none => exact Or.inl rfl
    | some other =>
      have hmem : other.1 ∈ tree.addresses := List.mem_map_of_mem (hentry other rfl)
      exact Or.inr ⟨rfl, other.1, rfl, (hlaid.reaches_iff _).mpr hmem⟩
  obtain ⟨background, tree, hlaid⟩ := hs.laid
  cases h with
  | ofBegin hrun =>
    rw [hlaid.state] at hrun
    cases (begin_lay hlaid.fits).symm.trans hrun
    exact hfound hlaid fun other ↦ List.mem_of_mem_head?
  | ofEnd => exact Or.inl rfl
  | ofLowerBound key hrun =>
    rw [hlaid.state] at hrun
    cases (lowerBound_lay hlaid.good.sorted hlaid.fits).symm.trans hrun
    exact hfound hlaid fun other ↦ List.mem_of_find?_eq_some
  | ofUpperBound key hrun =>
    rw [hlaid.state] at hrun
    cases (upperBound_lay hlaid.good.sorted hlaid.fits).symm.trans hrun
    exact hfound hlaid fun other ↦ List.mem_of_find?_eq_some
  | ofInsert key hs₀ hrun =>
    obtain ⟨background₀, tree₀, hlaid₀⟩ := hs₀.laid
    rw [hlaid₀.state] at hrun
    by_cases hcontains : hlaid₀.good.set.contains key = true
    · obtain ⟨-, htransforms⟩ := insert_spec_present hlaid₀.good hlaid₀.fits hlaid₀.fuse
        hlaid₀.size hcontains
      obtain ⟨parent, hinsert⟩ := htransforms background₀.nilNode hlaid₀.nil
      cases hinsert.symm.trans hrun
      exact Or.inl rfl
    · obtain ⟨address, tree', -, hfits', -, -, hmem, htransforms⟩ :=
        insert_spec_absent hlaid₀.good hlaid₀.fits hlaid₀.fuse hlaid₀.size
          (by simpa using hcontains)
      obtain ⟨parent, hinsert⟩ := htransforms background₀.nilNode hlaid₀.nil
      cases hinsert.symm.trans hrun
      refine Or.inr ⟨rfl, address, rfl, ?_⟩
      exact (reaches_lay ⟨hfits'.nodup, hfits'.free⟩ address).mpr (List.mem_map_of_mem hmem)
  | kept hreturned hpoints => exact Or.inr hpoints

end Returned

end StudStuff.RedBlackTree
