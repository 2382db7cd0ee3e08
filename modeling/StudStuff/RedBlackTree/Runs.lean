import StudStuff.RedBlackTree.WorldInvariant

/-!
# The red-black invariant over whole runs

`TreeObject.RedBlack` is the representation invariant of a tree object, read off the heap with
`Reaches` and `BlackPath` alone. `reachable_redBlack` proves it of every object in every world that
a program reaches, and that no further operation whose precondition holds stops with a fault.

`Run.invariant` is the induction over runs: `exec_computes_of_ne_remove` and
`Core.Invariant.of_remove` are its steps. It does not depend on what `==` is.
-/

set_option autoImplicit false
set_option relaxedAutoImplicit false

namespace StudStuff.RedBlackTree

open Lib

variable {Key : Type} {params : Params Key}

/-! ### Runs -/

/-- Every run keeps the invariant, and every sentinel stays a sentinel. -/
theorem Run.invariant [IsStrictWeakOrder Key fun first second ↦ params.comp first second = true]
    {policy : SentinelPolicy params} {store : policy.Store}
    (hstore : ∀ name, (policy.load store name).IsSentinel params)
    {trace : List (Op Key × Output Key)} {world : World Key policy.Store}
    (h : Run policy store trace world) :
    (∃ shapes, world.core.Invariant params shapes) ∧ world.core.objects .temporary = none ∧
      ∀ name, (policy.load world.sentinels name).IsSentinel params := by
  induction h with
  | start =>
    refine ⟨⟨fun _ ↦ .nil, ?_⟩, rfl, hstore⟩
    refine ⟨?_, fun _ _ ↦ rfl, fun _ ↦ Tree.good_nil _, by simp, ?_, by simp, ?_, rfl, rfl⟩
    · intro name object hobject
      cases hobject
    · intro name address hmem
      cases hmem
    · intro address hmem
      cases hmem
  | @step trace world world' op output hrun hvalid hexec ih =>
    obtain ⟨⟨shapes, hinv⟩, htemporary, hsentinels⟩ := ih
    by_cases hop : ∃ name key, op = .remove name key
    · -- Only the loop of `Remove` depends on `==`, and only its result matters here.
      obtain ⟨name, key, rfl⟩ := hop
      obtain ⟨object, hname⟩ := hvalid
      cases hremove : member policy (.named name) (RedBlackTree.remove params key) world with
      | error stop world'' =>
        cases (bind_error hremove).symm.trans hexec
      | ok value world'' =>
        cases (bind_ok hremove).symm.trans hexec
        obtain ⟨hinv', ⟨object', hobjects⟩, hsentinels'⟩ :=
          hinv.of_remove hname hsentinels hremove
        exact ⟨hinv', (world.core.objects_temporary hobjects).trans htemporary, hsentinels'⟩
    · obtain ⟨output', core', shapes', hinv', htemporary', hcomputes⟩ :=
        exec_computes_of_ne_remove hinv htemporary (fun name key h ↦ hop ⟨name, key, h⟩) hvalid
      obtain ⟨store', hstore', hexec'⟩ := hcomputes policy world.sentinels hsentinels
      cases hexec.symm.trans hexec'
      exact ⟨⟨shapes', hinv'⟩, htemporary', hstore'⟩

/-! ### The representation invariant -/

/-- The child pointers from a pointer down to the sentinel pass a number of black nodes. -/
inductive BlackPath (heap : Heap ℕ (RBNode Key)) : Ptr → ℕ → Prop
  | nil : BlackPath heap .nil 0
  | child {address count : ℕ} {node : RBNode Key} (side : Side)
      (hcell : heap.cell address = some node) (hpath : BlackPath heap (node.child side) count) :
      BlackPath heap (.node address) (count + if node.color = .black then 1 else 0)

/-- The red-black representation invariant of a tree object. -/
structure TreeObject.RedBlack (params : Params Key) (heap : Heap ℕ (RBNode Key))
    (object : TreeObject) : Prop where
  /-- The root is nil, or a black node whose parent is nil. -/
  root : object.root = .nil ∨ ∃ address node, object.root = .node address ∧
    heap.cell address = some node ∧ node.color = .black ∧ node.parent = .nil
  /-- A child that is not nil is a node whose parent field is its parent. -/
  parent : ∀ address node side, Reaches heap object.root address →
    heap.cell address = some node → node.child side = .nil ∨
      ∃ child cell, node.child side = .node child ∧ heap.cell child = some cell ∧
        cell.parent = .node address
  /-- The keys of the left subtree of a node are below its key. -/
  left : ∀ address node other cell, Reaches heap object.root address →
    heap.cell address = some node → Reaches heap node.left other →
      heap.cell other = some cell → params.comp cell.data node.data = true
  /-- The keys of the right subtree of a node are above its key. -/
  right : ∀ address node other cell, Reaches heap object.root address →
    heap.cell address = some node → Reaches heap node.right other →
      heap.cell other = some cell → params.comp node.data cell.data = true
  /-- No red node has a red child. -/
  red : ∀ address node side child cell, Reaches heap object.root address →
    heap.cell address = some node → node.color = .red → node.child side = .node child →
      heap.cell child = some cell → cell.color = .black
  /-- All paths down to nil pass the same number of black nodes. -/
  black : ∃ height, ∀ count, BlackPath heap object.root count → count = height
  /-- The size is the number of reachable nodes. -/
  size : ∃ addresses : Finset ℕ,
    (∀ address, Reaches heap object.root address ↔ address ∈ addresses) ∧
      object.size = addresses.card

/-! ### Reading it off a represented tree -/

section Represented

variable {heap : Heap ℕ (RBNode Key)} {parent root : Ptr} {tree : Tree Key}

/-- The cell at the root of a represented tree. -/
theorem Represents.root_cell (h : Represents heap parent root tree) {address : ℕ}
    {node : RBNode Key} (hroot : root = .node address) (hcell : heap.cell address = some node) :
    node.parent = parent ∧ node.color = tree.color := by
  cases h with
  | nil => cases hroot
  | node hcell' hleft hright =>
    obtain rfl := Ptr.node.inj hroot
    rw [hcell, Option.some.injEq] at hcell'
    subst hcell'
    exact ⟨rfl, rfl⟩

/-- A represented tree has a root pointer other than null. -/
theorem Represents.root_cases (h : Represents heap parent root tree) : root = .nil ∨
    ∃ address node, root = .node address ∧ heap.cell address = some node ∧
      node.parent = parent ∧ node.color = tree.color := by
  cases h with
  | nil => exact Or.inl rfl
  | node hcell hleft hright => exact Or.inr ⟨_, _, rfl, hcell, rfl, rfl⟩

/-- The subtree at a reached node has every property that a tree passes on to its children. -/
theorem Represents.subtree (h : Represents heap parent root tree) (property : Tree Key → Prop)
    (hereditary : ∀ address color left key right,
      property (.node address color left key right) → property left ∧ property right)
    (hproperty : property tree) {address : ℕ} {node : RBNode Key}
    (hreach : Reaches heap root address) (hcell : heap.cell address = some node) :
    ∃ left right, property (.node address node.color left node.data right) ∧
      Represents heap (.node address) node.left left ∧
      Represents heap (.node address) node.right right := by
  induction h with
  | nil => cases hreach
  | node hcell' hleft hright ihl ihr =>
    cases hreach with
    | here =>
      rw [hcell, Option.some.injEq] at hcell'
      subst hcell'
      exact ⟨_, _, hproperty, hleft, hright⟩
    | child side hcell'' hchild =>
      rw [hcell', Option.some.injEq] at hcell''
      subst hcell''
      obtain ⟨hl, hr⟩ := hereditary _ _ _ _ _ hproperty
      cases side with
      | left => exact ihl hl hchild
      | right => exact ihr hr hchild

/-- The key of a reached node is a key of the represented tree. -/
theorem Represents.mem_keys (h : Represents heap parent root tree) {address : ℕ}
    {node : RBNode Key} (hreach : Reaches heap root address)
    (hcell : heap.cell address = some node) : node.data ∈ tree.keys := by
  induction h with
  | nil => cases hreach
  | node hcell' hleft hright ihl ihr =>
    simp only [Tree.keys, Tree.inorder_node, List.map_append, List.map_cons, List.mem_append,
      List.mem_cons] at ihl ihr ⊢
    cases hreach with
    | here =>
      rw [hcell, Option.some.injEq] at hcell'
      subst hcell'
      exact Or.inr (Or.inl rfl)
    | child side hcell'' hchild =>
      rw [hcell', Option.some.injEq] at hcell''
      subst hcell''
      cases side with
      | left => exact Or.inl (ihl hchild)
      | right => exact Or.inr (Or.inr (ihr hchild))

/-- The black paths of a represented tree. -/
theorem Represents.mem_blackCounts (h : Represents heap parent root tree) {count : ℕ}
    (hpath : BlackPath heap root count) : count ∈ tree.blackCounts := by
  induction h generalizing count with
  | nil =>
    cases hpath
    simp [Tree.blackCounts]
  | node hcell hleft hright ihl ihr =>
    cases hpath with
    | @child _ count node side hcell' hpath =>
      rw [hcell, Option.some.injEq] at hcell'
      subst hcell'
      rw [Tree.blackCounts, List.mem_map]
      refine ⟨count, List.mem_append.mpr ?_, rfl⟩
      cases side with
      | left => exact Or.inl (ihl hpath)
      | right => exact Or.inr (ihr hpath)

/-- An object whose root represents a good tree satisfies the representation invariant. -/
theorem Represents.redBlack [params.Lawful] {object : TreeObject}
    (h : Represents heap .nil object.root tree) (hgood : tree.Good params.comp)
    (hnodup : tree.addresses.Nodup) (hsize : object.size = tree.size) :
    object.RedBlack params heap := by
  obtain ⟨height, hbalanced⟩ := hgood.balanced
  have hordered := (Tree.ordered_iff_sorted tree).mpr hgood.sorted
  have hsubtrees {address : ℕ} {node : RBNode Key} (hreach : Reaches heap object.root address)
      (hcell : heap.cell address = some node) := h.subtree
    (fun tree ↦ tree.Ordered params.comp ∧ tree.NoRedRed)
    (fun _ _ _ _ _ hnode ↦ ⟨⟨hnode.1.2.2.1, hnode.2.2.1⟩, hnode.1.2.2.2, hnode.2.2.2⟩)
    ⟨hordered, hbalanced.noRedRed⟩ hreach hcell
  refine ⟨?_, ?_, ?_, ?_, ?_, ⟨height, fun count hpath ↦ ?_⟩, ?_⟩
  · rcases h.root_cases with hroot | ⟨address, node, hroot, hcell, hparent, hcolor⟩
    · exact Or.inl hroot
    · exact Or.inr ⟨address, node, hroot, hcell, hcolor.trans hbalanced.color_eq, hparent⟩
  · intro address node side hreach hcell
    obtain ⟨left, right, -, hleft, hright⟩ := hsubtrees hreach hcell
    cases side with
    | left =>
      rcases hleft.root_cases with hroot | ⟨child, cell, hroot, hchild, hparent, -⟩
      · exact Or.inl hroot
      · exact Or.inr ⟨child, cell, hroot, hchild, hparent⟩
    | right =>
      rcases hright.root_cases with hroot | ⟨child, cell, hroot, hchild, hparent, -⟩
      · exact Or.inl hroot
      · exact Or.inr ⟨child, cell, hroot, hchild, hparent⟩
  · intro address node other cell hreach hcell hother hcell'
    obtain ⟨left, right, ⟨hordered', -⟩, hleft, -⟩ := hsubtrees hreach hcell
    exact hordered'.1 _ (hleft.mem_keys hother hcell')
  · intro address node other cell hreach hcell hother hcell'
    obtain ⟨left, right, ⟨hordered', -⟩, -, hright⟩ := hsubtrees hreach hcell
    exact hordered'.2.1 _ (hright.mem_keys hother hcell')
  · intro address node side child cell hreach hcell hred hchild hcell'
    obtain ⟨left, right, ⟨-, hnoRedRed⟩, hleft, hright⟩ := hsubtrees hreach hcell
    cases side with
    | left => exact (hleft.root_cell hchild hcell').2.trans (hnoRedRed.1 hred).1
    | right => exact (hright.root_cell hchild hcell').2.trans (hnoRedRed.1 hred).2
  · exact hbalanced.blackCounts count (h.mem_blackCounts hpath)
  · refine ⟨tree.addresses.toFinset, fun address ↦ ?_, ?_⟩
    · rw [h.reaches_iff, List.mem_toFinset]
    · rw [hsize, List.toFinset_card_of_nodup hnodup, Tree.length_addresses]

end Represented

/-- The tree that the root of an object represents. -/
theorem Core.Invariant.represents {core : Core Key} {shapes : ObjectName → Tree Key}
    (h : core.Invariant params shapes) {name : ObjectName} {object : TreeObject}
    (hobject : core.objects name = some object) :
    Represents core.heap .nil object.root (shapes name) := by
  rw [h.object name object hobject]
  exact (h.present name).represents (h.nodup name)

/-- In every world that a program reaches, every tree object satisfies the representation
invariant. Every further operation whose precondition holds returns: no loop runs on for longer
than there are nodes, no rotation is applied to a node whose pivot is nil, and no fixup takes nil
for a grandparent or a sibling. -/
theorem reachable_redBlack [params.Lawful] {world : World Key (SentinelPolicy.shared params).Store}
    (hreach : Reachable params world) :
    (∀ name object, world.core.objects (.named name) = some object →
      object.RedBlack params world.core.heap) ∧
    ∀ op : Op Key, op.Valid world.core →
      ∃ output world', exec (.shared params) op world = .ok output world' := by
  obtain ⟨trace, hrun⟩ := hreach
  obtain ⟨⟨shapes, hinv⟩, htemporary, hsentinels⟩ :=
    hrun.invariant fun _ ↦ isSentinel_sentinel params
  constructor
  · intro name object hobject
    have hsize : object.size = (shapes (.named name)).size := by
      rw [hinv.object _ _ hobject]
    exact (hinv.represents hobject).redBlack (hinv.good _) (hinv.nodup _) hsize
  · intro op hvalid
    obtain ⟨output, core', shapes', -, -, hcomputes⟩ := exec_computes hinv htemporary hvalid
    obtain ⟨store', -, hexec⟩ := hcomputes (.shared params) world.sentinels hsentinels
    exact ⟨output, _, hexec⟩

/-- The first of several trees. -/
theorem reachable_redBlack_several :
    ∃ (world : World ℕ (SentinelPolicy.shared Params.naturals).Store) (object : TreeObject),
      world.core.objects (.named 0) = some object ∧ object.size = 6 ∧
        Represents world.core.heap .nil object.root severalTree ∧
          object.RedBlack Params.naturals world.core.heap := by
  obtain ⟨trace, world, hrun, -, hobject, htree, -, -⟩ := exists_severalOps
  exact ⟨world, _, hobject, rfl, htree, (reachable_redBlack ⟨trace, hrun⟩).1 0 _ hobject⟩

end StudStuff.RedBlackTree
