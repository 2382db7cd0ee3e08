import StudStuff.RedBlackTree.Insertion

/-!
# `Clear` and the deep copy

Both functions recurse over a subtree whose cells are somewhere in the memory (`Present`), not over
a layout: a copy reads the tree of another object. `clearRecursive_run` frees every node of the
subtree once. `copyRecursive_run` builds a tree of the same shape, colours and keys
(`Tree.SameShape`) out of addresses that were free, and leaves every other cell alone, as long as
the operations that may throw succeed, two for each node.
-/

set_option autoImplicit false
set_option relaxedAutoImplicit false

namespace StudStuff.RedBlackTree

open Lib

variable {Key : Type} {params : Params Key}

/-- The cells of a tree that hangs under a parent are in the heap. -/
def Present (heap : Heap ℕ (RBNode Key)) (parent : Ptr) (tree : Tree Key) : Prop :=
  ∀ address ∈ tree.addresses, heap.cell address = tree.cellAt parent address

section Present

variable {heap : Heap ℕ (RBNode Key)} {parent : Ptr} {address : ℕ} {color : Color}
  {left right : Tree Key} {key : Key}

/-- The cells of a laid out tree are in the heap. -/
theorem present_lay (background : State Key) (tree : Tree Key) :
    Present (lay background tree).heap .nil tree := by
  intro address hmem
  rw [cell_lay]
  obtain ⟨node, hnode⟩ := Option.isSome_iff_exists.mp ((Tree.mem_addresses .nil _ _).mp hmem)
  rw [hnode, Option.some_or]

theorem Present.root (h : Present heap parent (.node address color left key right)) :
    heap.cell address = some ⟨key, color, parent, left.ptr, right.ptr⟩ := by
  rw [h address (by simp), Tree.cellAt, if_pos rfl]

theorem Present.goLeft (h : Present heap parent (.node address color left key right))
    (hnodup : (Tree.node address color left key right).addresses.Nodup) :
    Present heap (.node address) left := by
  intro other hmem
  simp only [Tree.addresses_node, List.nodup_append, List.nodup_cons, List.mem_cons] at hnodup
  have hne : other ≠ address := by grind
  have hright : other ∉ right.addresses := by grind
  rw [h other (by simp [hmem]), Tree.cellAt, if_neg hne, Tree.cellAt_eq_none hright, Option.or_none]

theorem Present.goRight (h : Present heap parent (.node address color left key right))
    (hnodup : (Tree.node address color left key right).addresses.Nodup) :
    Present heap (.node address) right := by
  intro other hmem
  simp only [Tree.addresses_node, List.nodup_append, List.nodup_cons, List.mem_cons] at hnodup
  have hne : other ≠ address := by grind
  have hleft : other ∉ left.addresses := by grind
  rw [h other (by simp [hmem]), Tree.cellAt, if_neg hne, Tree.cellAt_eq_none hleft, Option.none_or]

/-- Changing other cells keeps a tree present. -/
theorem Present.congr {heap' : Heap ℕ (RBNode Key)} {tree : Tree Key} (h : Present heap parent tree)
    (hcell : ∀ other ∈ tree.addresses, heap'.cell other = heap.cell other) :
    Present heap' parent tree := by
  intro other hmem
  rw [hcell other hmem, h other hmem]

/-- A present tree is live. -/
theorem Present.live {tree : Tree Key} (h : Present heap parent tree) {other : ℕ}
    (hmem : other ∈ tree.addresses) : other ∈ heap.live := by
  rw [heap.mem_live, h other hmem, ← Tree.mem_addresses]
  exact hmem

/-- A present tree has no more nodes than there are live ones. -/
theorem Present.size_le {tree : Tree Key} (h : Present heap parent tree)
    (hnodup : tree.addresses.Nodup) : tree.size ≤ heap.live.card := by
  rw [← Tree.length_addresses, ← List.toFinset_card_of_nodup hnodup]
  apply Finset.card_le_card
  intro other hmem
  exact h.live (List.mem_toFinset.mp hmem)

end Present

/-! ### Clearing -/

/-- The state after the nodes of a tree were freed. -/
def State.dropped (s : State Key) (tree : Tree Key) : State Key :=
  { s with heap := s.heap.releaseAll tree.addresses, freed := s.freed + tree.size }

/-- `ClearRecursive` frees every node of a subtree. -/
theorem clearRecursive_run {tree : Tree Key} {parent : Ptr} {s : State Key} {bound : ℕ}
    (h : Present s.heap parent tree) (hnodup : tree.addresses.Nodup) (hbound : tree.size < bound) :
    clearRecursive bound tree.ptr s = .ok () (s.dropped tree) := by
  induction tree generalizing parent s bound with
  | nil =>
    obtain ⟨bound, rfl⟩ : ∃ count, bound = count + 1 := ⟨bound - 1, by omega⟩
    rw [clearRecursive, Tree.ptr_nil, if_pos rfl, pure_apply]
    refine congrArg (EStateM.Result.ok ()) (State.ext (Heap.ext_cell fun other ↦ ?_)
      rfl rfl rfl rfl rfl rfl)
    simp [State.dropped]
  | node address color left key right ihl ihr =>
    obtain ⟨bound, rfl⟩ : ∃ count, bound = count + 1 := ⟨bound - 1, by omega⟩
    rw [Tree.size] at hbound
    have hleft := h.goLeft hnodup
    have hright := h.goRight hnodup
    have hroot := h.root
    simp only [Tree.addresses_node, List.nodup_append, List.nodup_cons, List.mem_cons] at hnodup
    have hroot₁ : (s.dropped left).heap.cell address =
        some ⟨key, color, parent, left.ptr, right.ptr⟩ := by
      rw [State.dropped, Heap.cell_releaseAll, if_neg (by grind), hroot]
    have hright₁ : Present (s.dropped left).heap (.node address) right :=
      hright.congr fun other hmem ↦ by
        rw [State.dropped, Heap.cell_releaseAll, if_neg (by grind)]
    have hroot₂ : ((s.dropped left).dropped right).heap.cell address =
        some ⟨key, color, parent, left.ptr, right.ptr⟩ := by
      rw [State.dropped, Heap.cell_releaseAll, if_neg (by grind), hroot₁]
    rw [clearRecursive, Tree.ptr_node, if_neg (by simp)]
    refine (bind_ok (read_node hroot)).trans ?_
    refine (bind_ok (ihl hleft hnodup.1 (by omega))).trans ?_
    refine (bind_ok (read_node hroot₁)).trans ?_
    refine (bind_ok (ihr hright₁ hnodup.2.1.2 (by omega))).trans ?_
    rw [deleteNode, hroot₂]
    refine congrArg (EStateM.Result.ok ()) (State.ext (Heap.ext_cell fun other ↦ ?_) rfl rfl ?_
      rfl rfl rfl)
    · simp only [State.dropped, Heap.cell_release, Heap.cell_releaseAll, Tree.addresses_node,
        List.mem_append, List.mem_cons]
      grind
    · simp only [State.dropped, Tree.size]
      omega

/-- The background after the tree of the object was cleared. -/
def State.cleared (background : State Key) (count : ℕ) : State Key :=
  { background with freed := background.freed + count, size := 0 }

/-- `Clear`. -/
theorem clear_lay {background : State Key} {tree : Tree Key} (hfits : Fits background tree) :
    clear (lay background tree) = .ok () (lay (background.cleared tree.size) .nil) := by
  have hlive := size_le_live hfits
  have hrun := clearRecursive_run (present_lay background tree) hfits.nodup
    (show tree.size < (lay background tree).heap.live.card + 2 by omega)
  unfold clear
  refine (bind_ok (fuel_apply _)).trans ?_
  refine (bind_ok (get_apply _)).trans ?_
  refine (bind_ok hrun).trans ?_
  refine (bind_ok (setRoot_apply _ _)).trans ?_
  rw [setSize_apply]
  refine congrArg (EStateM.Result.ok ()) (lay_ext (fun other ↦ ?_) rfl rfl rfl rfl rfl rfl)
  simp only [State.dropped, Heap.cell_releaseAll, cell_lay, Tree.cellAt_nil, Option.none_or,
    State.cleared]
  by_cases hmem : other ∈ tree.addresses
  · rw [if_pos hmem, hfits.free other hmem]
  · rw [if_neg hmem, Tree.cellAt_eq_none hmem, Option.none_or]

/-! ### Copying -/

/-- Two trees have the same shape, colours and keys. -/
inductive Tree.SameShape : Tree Key → Tree Key → Prop
  | nil : SameShape .nil .nil
  | node {address address' : ℕ} {color : Color} {left left' right right' : Tree Key} {key : Key}
      (hleft : SameShape left left') (hright : SameShape right right') :
      SameShape (.node address color left key right) (.node address' color left' key right')

namespace Tree.SameShape

variable {tree tree' : Tree Key}

theorem keys_eq (h : tree.SameShape tree') : tree.keys = tree'.keys := by
  induction h with
  | nil => rfl
  | node _ _ ihl ihr =>
    simp only [Tree.keys, Tree.inorder_node, List.map_append, List.map_cons] at ihl ihr ⊢
    rw [ihl, ihr]

theorem size_eq (h : tree.SameShape tree') : tree.size = tree'.size := by
  rw [← Tree.length_keys, h.keys_eq, Tree.length_keys]

theorem balanced (h : tree.SameShape tree') {color : Color} {height : ℕ}
    (hbalanced : Balanced tree color height) : Balanced tree' color height := by
  induction h generalizing color height with
  | nil => exact hbalanced
  | node _ _ ihl ihr =>
    cases hbalanced with
    | red hleft hright => exact .red (ihl hleft) (ihr hright)
    | black hleft hright => exact .black (ihl hleft) (ihr hright)

theorem sorted (h : tree.SameShape tree') {comp : Key → Key → Bool} (hsorted : tree.Sorted comp) :
    tree'.Sorted comp := by
  rw [Tree.Sorted, ← h.keys_eq]
  exact hsorted

end Tree.SameShape

theorem onThrow_ok {α : Type} {body : TreeM Key α} {handler : TreeM Key Unit} {s s' : State Key}
    {value : α} (h : body s = .ok value s') : onThrow body handler s = .ok value s' := by
  rw [onThrow, h]

/-! ### Growing memories -/

/-- Every live node stays as it is. -/
def State.Grows (s s' : State Key) : Prop :=
  ∀ address node, s.heap.cell address = some node → s'.heap.cell address = some node

section Grows

variable {s s' s'' : State Key} {fresh : ℕ} {parent : Ptr} {tree : Tree Key}

theorem State.Grows.trans (h : s.Grows s') (h' : s'.Grows s'') : s.Grows s'' :=
  fun address node hcell ↦ h' address node (h address node hcell)

/-- What is free at the end was free at first. -/
theorem State.Grows.free (h : s.Grows s') {address : ℕ} (hfree : s'.heap.cell address = none) :
    s.heap.cell address = none := by
  rw [Option.eq_none_iff_forall_ne_some]
  intro node hcell
  rw [h address node hcell] at hfree
  cases hfree

/-- A live node is not a fresh one. -/
theorem ne_of_cell {address : ℕ} {node : RBNode Key}
    (hcell : s.heap.cell address = some node) (hfresh : s.heap.cell fresh = none) :
    address ≠ fresh := by
  rintro rfl
  rw [hfresh] at hcell
  cases hcell

/-- Assigning to a node that was not live at first. -/
theorem State.Grows.assign (h : s.Grows s') (hfresh : s.heap.cell fresh = none)
    (change : RBNode Key → RBNode Key) : s.Grows (s'.assign fresh change) := by
  intro address node hcell
  rw [cell_assign, if_neg (ne_of_cell hcell hfresh)]
  exact h address node hcell

/-- A tree stays present. -/
theorem State.Grows.present (h : s.Grows s') (hpresent : Present s.heap parent tree) :
    Present s'.heap parent tree := by
  apply hpresent.congr
  intro other hmem
  obtain ⟨node, hnode⟩ := Option.isSome_iff_exists.mp ((Tree.mem_addresses parent _ _).mp hmem)
  have hcell : s.heap.cell other = some node := (hpresent other hmem).trans hnode
  rw [hcell, h other node hcell]

end Grows

/-! ### New nodes -/

/-- The state with the new node of a copy, which has no children yet. -/
def State.sprouted (s : State Key) (fresh : ℕ) (key : Key) (color : Color) (parent : Ptr) :
    State Key :=
  { s with
    heap := s.heap.store fresh ⟨key, color, parent, .null, .null⟩
    allocated := s.allocated + 1 }

/-- The state after a tree was built from new nodes. -/
def State.built (s : State Key) (parent : Ptr) (tree : Tree Key) : State Key :=
  { s with
    heap := s.heap.overlay (tree.cellAt parent) tree.addresses (Tree.mem_addresses parent tree)
    allocated := s.allocated + tree.size }

section Built

variable {s : State Key} {fresh : ℕ} {key : Key} {color : Color} {parent : Ptr}

@[simp] theorem cell_sprouted (s : State Key) (fresh other : ℕ) (key : Key) (color : Color)
    (parent : Ptr) : (s.sprouted fresh key color parent).heap.cell other =
      if other = fresh then some ⟨key, color, parent, .null, .null⟩ else s.heap.cell other :=
  rfl

@[simp] theorem cell_built (s : State Key) (parent : Ptr) (tree : Tree Key) (other : ℕ) :
    (s.built parent tree).heap.cell other =
      (tree.cellAt parent other).or (s.heap.cell other) :=
  rfl

theorem grows_sprouted (hfresh : s.heap.cell fresh = none) :
    s.Grows (s.sprouted fresh key color parent) := by
  intro address node hcell
  rw [cell_sprouted, if_neg (ne_of_cell hcell hfresh), hcell]

theorem grows_built {tree : Tree Key}
    (hfree : ∀ address ∈ tree.addresses, s.heap.cell address = none) :
    s.Grows (s.built parent tree) := by
  intro address node hcell
  have hmem : address ∉ tree.addresses := fun hmem ↦ by
    rw [hfree address hmem] at hcell
    cases hcell
  rw [cell_built, Tree.cellAt_eq_none hmem, Option.none_or, hcell]

/-- A new node with two trees built below it is a tree that was built. -/
theorem built_node (s : State Key) (key : Key) (color : Color) (parent : Ptr)
    {left right : Tree Key} (hleft : fresh ∉ left.addresses)
    (hright : fresh ∉ right.addresses)
    (hdisjoint : ∀ other ∈ right.addresses, other ∉ left.addresses) :
    (((((s.sprouted fresh key color parent).built (.node fresh) left).assign fresh
      fun node ↦ node.setChild .left left.ptr).built (.node fresh) right).assign fresh
        fun node ↦ node.setChild .right right.ptr) =
      s.built parent (.node fresh color left key right) := by
  refine State.ext (Heap.ext_cell fun other ↦ ?_) rfl ?_ rfl rfl rfl rfl
  · rw [cell_assign, cell_built, cell_assign, cell_built, cell_sprouted, cell_built, Tree.cellAt]
    by_cases hother : other = fresh
    · simp [hother, Tree.cellAt_eq_none hleft, Tree.cellAt_eq_none hright, RBNode.setChild]
    · rw [if_neg hother, if_neg hother, if_neg hother, if_neg hother]
      by_cases hmem : other ∈ right.addresses
      · simp [Tree.cellAt_eq_none (hdisjoint other hmem)]
      · simp [Tree.cellAt_eq_none hmem]
  · simp only [State.built, State.assign, State.sprouted, Tree.size]
    omega

end Built

/-! ### The copy of a node -/

/-- The rest of the try block once the new node has its colour and its parent. -/
def copyChildren (params : Params Key) (bound : ℕ) (node newNode : Ptr) : TreeM Key Unit := do
  setChild newNode .left (← copyRecursive params bound (← read node).left newNode)
  setChild newNode .right (← copyRecursive params bound (← read node).right newNode)

section Copies

variable {address bound : ℕ} {color : Color} {left right : Tree Key} {key : Key}

/-- `CopyRecursive` at a node whose copy can be made. -/
theorem copyRecursive_node (params : Params Key) (bound : ℕ) (newParent : Ptr) {s : State Key}
    {parent : Ptr} {fuse : Option ℕ}
    (hroot : s.heap.cell address = some ⟨key, color, parent, left.ptr, right.ptr⟩)
    (hfuse : s.fuse = fuse.map (· + 2)) :
    copyRecursive params (bound + 1) (.node address) newParent s =
      (onThrow (copyChildren params bound (.node address) (.node (s.nextAddress params)))
          (do clearRecursive (← fuel) (.node (s.nextAddress params))) >>=
            fun _ ↦ pure (.node (s.nextAddress params)))
        { s.sprouted (s.nextAddress params) key color newParent with fuse := fuse } := by
  have hne := ne_of_cell hroot (cell_nextAddress s params)
  set fresh := s.nextAddress params
  set made : State Key := { s with
    heap := s.heap.store fresh (RBNode.new key)
    allocated := s.allocated + 1
    fuse := fuse } with hmade
  have hnew : (do newNode params (← read (.node address)).data : TreeM Key Ptr) s =
      .ok (.node fresh) made :=
    (bind_ok (read_node hroot)).trans (newNode_made hfuse key)
  have hcell : made.heap.cell fresh = some (RBNode.new key) := by
    rw [hmade, Heap.cell_store, if_pos rfl]
  have hready : (made.assign fresh fun node ↦ { node with color := color }).assign fresh
      (fun node ↦ { node with parent := newParent }) =
        { s.sprouted fresh key color newParent with fuse := fuse } := by
    refine State.ext (Heap.ext_cell fun other ↦ ?_) rfl rfl rfl rfl rfl rfl
    change _ = (s.sprouted fresh key color newParent).heap.cell other
    rw [cell_assign, cell_assign, hmade, cell_sprouted]
    by_cases hother : other = fresh
    · simp [hother, RBNode.new]
    · simp [hother]
  have hbody : (do
      setColor (.node fresh) (← read (.node address)).color
      setParent (.node fresh) newParent
      copyChildren params bound (.node address) (.node fresh) : TreeM Key Unit) made =
    copyChildren params bound (.node address) (.node fresh)
      { s.sprouted fresh key color newParent with fuse := fuse } := by
    rw [← hready]
    refine (bind_ok (read_node (show made.heap.cell address =
      some ⟨key, color, parent, left.ptr, right.ptr⟩ by simp [hmade, hne, hroot]))).trans ?_
    refine (bind_ok (setColor_node hcell _)).trans ?_
    exact bind_ok (setParent_node (show _ = some (RBNode.mk key color .null .null .null) by
      simp [hcell, RBNode.new]) _)
  rw [copyRecursive, if_neg (by simp)]
  refine (bind_ok (onThrow_ok hnew)).trans ?_
  rw [bind_apply, bind_apply, onThrow, onThrow, ← hbody]
  rfl

/-- The copy of the children once the left one is made. -/
theorem copyChildren_left {s₁ s₂ : State Key} {fresh : ℕ} {node : RBNode Key} {parent copy : Ptr}
    (hroot : s₁.heap.cell address = some ⟨key, color, parent, left.ptr, right.ptr⟩)
    (hleft : copyRecursive params bound left.ptr (.node fresh) s₁ = .ok copy s₂)
    (hroot₂ : s₂.heap.cell address = some ⟨key, color, parent, left.ptr, right.ptr⟩)
    (hnode : s₂.heap.cell fresh = some node) (hne : address ≠ fresh) :
    copyChildren params bound (.node address) (.node fresh) s₁ =
      (copyRecursive params bound right.ptr (.node fresh) >>= setChild (.node fresh) .right)
        (s₂.assign fresh fun node ↦ node.setChild .left copy) := by
  unfold copyChildren
  refine (bind_ok (read_node hroot)).trans ?_
  refine (bind_ok hleft).trans ?_
  refine (bind_ok (setChild_node hnode _ _)).trans ?_
  have hroot₃ : (s₂.assign fresh fun node ↦ node.setChild .left copy).heap.cell address =
      some ⟨key, color, parent, left.ptr, right.ptr⟩ := by
    rw [cell_assign, if_neg hne, hroot₂]
  exact bind_ok (read_node hroot₃)

/-- The operations that may throw in the copy of a node and of its subtrees. -/
theorem fuse_node (fuse : Option ℕ) (address : ℕ) (color : Color) (left : Tree Key) (key : Key)
    (right : Tree Key) :
    fuse.map (2 * (Tree.node address color left key right).size + ·) =
      ((fuse.map (2 * right.size + ·)).map (2 * left.size + ·)).map (· + 2) := by
  rw [Option.map_map, Option.map_map]
  refine congrArg (fuse.map ·) (funext fun count ↦ ?_)
  simp only [Tree.size, Function.comp_apply]
  omega

end Copies

/-- `CopyRecursive` of a present subtree. Which copy it makes does not depend on the sentinel, nor
on how many more operations may throw. -/
theorem copyRecursive_run (params : Params Key) {source : Tree Key} {parent : Ptr}
    (newParent : Ptr) {s : State Key} {bound : ℕ} (h : Present s.heap parent source)
    (hnodup : source.addresses.Nodup) (hbound : source.size < bound) :
    ∃ copy : Tree Key, source.SameShape copy ∧ copy.addresses.Nodup ∧
      (∀ address ∈ copy.addresses, s.heap.cell address = none) ∧
      ∀ nilNode fuse, copyRecursive params bound source.ptr newParent
          { s with nilNode := nilNode, fuse := fuse.map (2 * source.size + ·) } =
        .ok copy.ptr { s.built newParent copy with nilNode := nilNode, fuse := fuse } := by
  induction source generalizing parent newParent s bound with
  | nil =>
    obtain ⟨bound, rfl⟩ : ∃ count, bound = count + 1 := ⟨bound - 1, by omega⟩
    refine ⟨.nil, .nil, by simp, by simp, fun nilNode fuse ↦ ?_⟩
    rw [copyRecursive, Tree.ptr_nil, if_pos rfl, pure_apply]
    refine congrArg (EStateM.Result.ok _) (State.ext (Heap.ext_cell fun other ↦ ?_)
      rfl rfl rfl ?_ rfl rfl)
    · simp
    · simp [Tree.size]
  | node address color left key right ihl ihr =>
    obtain ⟨bound, rfl⟩ : ∃ count, bound = count + 1 := ⟨bound - 1, by omega⟩
    rw [Tree.size] at hbound
    have hroot := h.root
    have hleft := h.goLeft hnodup
    have hright := h.goRight hnodup
    simp only [Tree.addresses_node, List.nodup_append, List.nodup_cons] at hnodup
    have hfresh := cell_nextAddress s params
    set fresh := s.nextAddress params with hfresh_eq
    have hne : address ≠ fresh := ne_of_cell hroot hfresh
    -- The left copy hangs below the new node.
    set s₁ := s.sprouted fresh key color newParent with hs₁
    have hgrows₁ : s.Grows s₁ := grows_sprouted hfresh
    have hcell₁ : s₁.heap.cell fresh = some ⟨key, color, newParent, .null, .null⟩ := if_pos rfl
    obtain ⟨copyL, hshapeL, hnodupL, hfreeL, hrunL⟩ := ihl (.node fresh) (hgrows₁.present hleft)
      hnodup.1 (show left.size < bound by omega)
    have hnotL : fresh ∉ copyL.addresses := fun hmem ↦ by
      rw [hfreeL fresh hmem] at hcell₁
      cases hcell₁
    have hgrows₂ : s₁.Grows (s₁.built (.node fresh) copyL) := grows_built hfreeL
    -- The right copy avoids the left one.
    set s₃ := (s₁.built (.node fresh) copyL).assign fresh fun node ↦ node.setChild .left copyL.ptr
      with hs₃
    have hgrows₃ : s.Grows s₃ := (hgrows₁.trans hgrows₂).assign hfresh _
    have hlive₃ (other : ℕ) : other ∈ s₃.heap.live ↔
        other = fresh ∨ other ∈ s.heap.live ∨ other ∈ copyL.addresses := by
      simp [hs₃, hs₁, State.assign, State.built, State.sprouted]
    obtain ⟨copyR, hshapeR, hnodupR, hfreeR, hrunR⟩ := ihr (.node fresh) (hgrows₃.present hright)
      hnodup.2.1.2 (show right.size < bound by omega)
    have hdead (other : ℕ) (hmem : other ∈ copyR.addresses) :
        other ≠ fresh ∧ other ∉ s.heap.live ∧ other ∉ copyL.addresses := by
      have hdead₃ := (s₃.heap.cell_eq_none_iff other).mp (hfreeR other hmem)
      simpa only [hlive₃, not_or] using hdead₃
    have hnotR : fresh ∉ copyR.addresses := fun hmem ↦ (hdead fresh hmem).1 rfl
    refine ⟨.node fresh color copyL key copyR, .node hshapeL hshapeR, ?_, ?_, fun nilNode fuse ↦ ?_⟩
    · simp only [Tree.addresses_node, List.nodup_append, List.nodup_cons, List.mem_cons]
      grind
    · simp only [Tree.addresses_node, List.mem_append, List.mem_cons]
      rintro other (hmem | rfl | hmem)
      · exact hgrows₁.free (hfreeL other hmem)
      · exact hfresh
      · exact hgrows₃.free (hfreeR other hmem)
    rw [fuse_node]
    refine (copyRecursive_node params bound newParent (s := { s with
      nilNode := nilNode
      fuse := ((fuse.map (2 * right.size + ·)).map (2 * left.size + ·)).map (· + 2) })
      hroot rfl).trans ?_
    have hbody : copyChildren params bound (.node address) (.node fresh) { s₁ with
          nilNode := nilNode, fuse := (fuse.map (2 * right.size + ·)).map (2 * left.size + ·) } =
        .ok () { s.built newParent (.node fresh color copyL key copyR) with
          nilNode := nilNode, fuse := fuse } := by
      refine Eq.trans (copyChildren_left (hgrows₁ _ _ hroot) (hrunL nilNode _)
        ((hgrows₁.trans hgrows₂) _ _ hroot) (hgrows₂ _ _ hcell₁) hne) ?_
      refine (bind_ok (hrunR nilNode fuse)).trans ?_
      have hcell₄ : (s₃.built (.node fresh) copyR).heap.cell fresh =
          some ⟨key, color, newParent, copyL.ptr, .null⟩ := by
        simp [hs₃, hs₁, Tree.cellAt_eq_none hnotL, Tree.cellAt_eq_none hnotR, RBNode.setChild]
      refine (setChild_node (s := { s₃.built (.node fresh) copyR with
        nilNode := nilNode, fuse := fuse }) hcell₄ _ _).trans ?_
      rw [← built_node s key color newParent hnotL hnotR fun other hmem ↦ (hdead other hmem).2.2]
      rfl
    exact bind_ok (onThrow_ok hbody)

end StudStuff.RedBlackTree
