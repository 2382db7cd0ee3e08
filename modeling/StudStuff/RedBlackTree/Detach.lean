import StudStuff.RedBlackTree.Balance
import StudStuff.RedBlackTree.Execution

/-!
# Taking a node out of a laid out tree

The first half of `RemoveOne`. `transplant_lay` replaces a node that has one empty child by its
other child, which may be the sentinel; the parent field of the sentinel is then set to the node
above (`RBNode.anchored`). `removeTwoChildren_lay` puts the successor in the place of a node with
two children. `Replacing` is the state half-way, which the source reaches in one of two ways
(`removeTwoChildren_child`, `removeTwoChildren_below`). Both functions leave the cell of the removed
node behind (`State.keeping`).
-/

set_option autoImplicit false
set_option relaxedAutoImplicit false

namespace StudStuff.RedBlackTree

open Lib

variable {Key : Type} {background : State Key} {frames : List (Frame Key)}

/-! ### The parent field of the sentinel -/

/-- The sentinel after a subtree was hung under a parent: its parent field changes when the
subtree is empty. -/
def RBNode.anchored (nilNode : RBNode Key) (child : Tree Key) (parent : Ptr) : RBNode Key :=
  match child with
  | .nil => { nilNode with parent := parent }
  | .node _ _ _ _ _ => nilNode

@[simp] theorem RBNode.anchored_color (nilNode : RBNode Key) (child : Tree Key) (parent : Ptr) :
    (nilNode.anchored child parent).color = nilNode.color := by
  cases child <;> rfl

/-- The state after a subtree, be it empty or not, was hung under a parent. -/
def State.hung (s : State Key) (child : Tree Key) (parent : Ptr) : State Key :=
  { s.adopted child parent with nilNode := s.nilNode.anchored child parent }

@[simp] theorem State.cell_hung (s : State Key) (child : Tree Key) (parent : Ptr) (other : ℕ) :
    (s.hung child parent).heap.cell other = (s.adopted child parent).heap.cell other :=
  rfl

theorem setParent_hung {s : State Key} {child : Tree Key} (parent : Ptr)
    (hlive : ∀ address, child.ptr = .node address → ∃ node, s.heap.cell address = some node) :
    setParent child.ptr parent s = .ok () (s.hung child parent) := by
  cases child with
  | nil => rfl
  | node address color left key right =>
    obtain ⟨node, hnode⟩ := hlive address rfl
    exact setParent_node hnode _

/-- The background that keeps the cell of a node taken out of the tree. -/
def State.keeping (background : State Key) (address : ℕ) (node : RBNode Key)
    (nilNode : RBNode Key) : State Key :=
  { background with heap := background.heap.store address node, nilNode := nilNode }

@[simp] theorem cell_keeping (background : State Key) (address other : ℕ)
    (node nilNode : RBNode Key) :
    (background.keeping address node nilNode).heap.cell other =
      if other = address then some node else background.heap.cell other :=
  rfl

/-- A tree with the rest of the listing fits, and the node that was taken out is not in it. -/
theorem Fits.detached {x : ℕ} {color : Color} {left right tree : Tree Key} {key : Key}
    (h : Fits background (plug (.node x color left key right) frames))
    (hinorder : tree.inorder = before frames ++ (left.inorder ++ right.inorder ++ after frames)) :
    Fits background tree ∧ x ∉ tree.addresses := by
  have hnodup := h.nodup
  have hfree := h.free
  simp only [Tree.addresses, inorder_plug, Tree.inorder_node, List.map_append, List.map_cons,
    List.nodup_append, List.nodup_cons, List.mem_append, List.mem_cons] at hnodup hfree
  refine ⟨⟨?_, ?_⟩, ?_⟩ <;> simp only [Tree.addresses, hinorder, List.map_append,
    List.nodup_append, List.mem_append] <;> grind

/-- Keeping a cell that is in no tree. -/
theorem Fits.keeping {x : ℕ} {tree : Tree Key} (h : Fits background tree)
    (hx : x ∉ tree.addresses) (node nilNode : RBNode Key) :
    Fits (background.keeping x node nilNode) tree := by
  refine ⟨h.nodup, fun address hmem ↦ ?_⟩
  have hne : address ≠ x := fun heq ↦ hx (heq ▸ hmem)
  rw [cell_keeping, if_neg hne, h.free address hmem]

/-! ### A node with one child -/

/-- `Transplant` of a node with one empty child by its other child. -/
theorem transplant_lay (side : Side) {x : ℕ} {color : Color} {key : Key} {child : Tree Key}
    (hfits : Fits background (plug (.branch side x color .nil key child) frames)) :
    transplant (.node x) child.ptr
        (lay background (plug (.branch side x color .nil key child) frames)) =
      .ok () (lay (background.keeping x (.ofSide side key color (hole frames) .nil child.ptr)
        (background.nilNode.anchored child (hole frames))) (plug child frames)) := by
  have hx := cell_branch hfits
  have hhangs := hangsOn_focus hfits (Tree.ptr_branch _ _ _ _ _ _)
  have hnodup := (nodup_addresses_plug _ _).mp hfits.nodup
  have hcell (other : ℕ) (hother : other ≠ x) :
      (lay background (plug (.branch side x color .nil key child) frames)).heap.cell other =
        (child.cellAt (.node x) other).or
          ((contextCellAt frames (.node x) other).or (background.heap.cell other)) := by
    rw [cell_lay_plug hfits, Tree.cellAt_branch hnodup.1, if_neg hother, Tree.ptr_branch,
      Tree.cellAt_nil, Option.none_or]
  have hlive : ∀ address, child.ptr = .node address → ∃ node, (lay background
      (plug (.branch side x color .nil key child) frames)).heap.cell address = some node :=
    fun address haddress ↦ live_of_mem (by simp [Tree.mem_addresses_of_ptr haddress]) hfits
  simp only [Tree.nodup_addresses_branch, Tree.mem_addresses_branch] at hnodup
  have hxchild : x ∉ child.addresses := by grind
  have hxframes : x ∉ contextAddresses frames := hnodup.2.2 x (Or.inl rfl)
  have hdisjoint : ∀ other ∈ contextAddresses frames, other ∉ child.addresses := by grind
  have hptr : child.ptr ≠ .node x := fun h ↦ hxchild (Tree.mem_addresses_of_ptr h)
  have hfits' : (plug child frames).addresses.Nodup :=
    (nodup_addresses_plug _ _).mpr ⟨by grind, hnodup.2.1, by grind⟩
  set s := lay background (plug (.branch side x color .nil key child) frames) with hs
  have hx' : (s.relinked frames child.ptr).heap.cell x =
      some (.ofSide side key color (hole frames) .nil child.ptr) := by
    rw [cell_relinked_of_notMem hxframes, hx, Tree.ptr_nil]
  unfold transplant
  rw [bind_ok (relink_run hx (by simp) hhangs), bind_ok (read_node hx'), RBNode.ofSide_parent,
    setParent_hung _ fun address haddress ↦ ?_]
  · congr 1
    refine lay_ext (fun other ↦ ?_) ?_ rfl rfl rfl rfl rfl
    · rw [cellAt_plug hfits', Option.or_assoc, State.cell_hung, cell_keeping]
      by_cases hother : other = x
      · subst hother
        rw [cell_adopted, if_neg hptr, hx', Tree.cellAt_eq_none hxchild,
          contextCellAt_eq_none hxframes, if_pos rfl]
        rfl
      · rw [if_neg hother]
        refine cell_adopted_subtree (.node x) none ?_ fun _ ↦ rfl
        exact cell_relinked _ (hcell other hother) fun hmem ↦
          Tree.cellAt_eq_none (hdisjoint other hmem) _
    · cases frames with
      | nil => rfl
      | cons frame rest => exact ptr_plug_cons _ _ frame rest
  · obtain ⟨node, hnode⟩ := hlive address haddress
    have hmem : address ∉ contextAddresses frames :=
      fun hmem ↦ hdisjoint address hmem (Tree.mem_addresses_of_ptr haddress)
    exact ⟨node, by rw [cell_relinked_of_notMem hmem, hnode]⟩

/-! ### The leftmost node -/

/-- Every tree with a node in it has a leftmost node, and `descendLeft` finds it. -/
theorem descendLeft_lay {tree : Tree Key} (hne : tree ≠ .nil) :
    ∃ inner y color key right, tree = plug (.node y color .nil key right) inner ∧
      (∀ frame ∈ inner, frame.side = .left) ∧
      ∀ (background : State Key) (frames : List (Frame Key)),
        Fits background (plug tree frames) → ∀ bound, tree.size ≤ bound →
          descendLeft .nil bound tree.ptr (lay background (plug tree frames)) =
            .ok (.node y) (lay background (plug tree frames)) := by
  induction tree with
  | nil => exact absurd rfl hne
  | node address color left key right ihl _ =>
    by_cases hleft : left = .nil
    · subst hleft
      refine ⟨[], address, color, key, right, rfl, by simp,
        fun background frames hfits bound hbound ↦ ?_⟩
      obtain ⟨bound, rfl⟩ : ∃ count, bound = count + 1 :=
        ⟨bound - 1, by simp [Tree.size] at hbound; omega⟩
      rw [descendLeft]
      refine (bind_ok (read_focus hfits)).trans ?_
      rw [if_neg (by simp), pure_apply]
      rfl
    · obtain ⟨inner, y, color', key', right', htree, hsides, hrun⟩ := ihl hleft
      refine ⟨inner ++ [⟨.left, address, color, key, right⟩], y, color', key', right', ?_, ?_,
        fun background frames hfits bound hbound ↦ ?_⟩
      · rw [plug_append, ← htree]
        rfl
      · simp only [List.mem_append, List.mem_singleton]
        rintro frame (hmem | rfl)
        · exact hsides frame hmem
        · rfl
      · obtain ⟨bound, rfl⟩ : ∃ count, bound = count + 1 :=
          ⟨bound - 1, by simp [Tree.size] at hbound; omega⟩
        rw [Tree.size] at hbound
        rw [descendLeft]
        refine (bind_ok (read_focus hfits)).trans ?_
        rw [if_pos (mt (Tree.ptr_eq_nil_iff left).mp hleft)]
        refine (bind_ok (read_focus hfits)).trans ?_
        exact hrun background (⟨.left, address, color, key, right⟩ :: frames) hfits bound (by omega)

/-! ### A node with two children -/

/-- A node and its successor on the way: the successor holds the right subtree of the node, and
the node is still in its place under the same parent. -/
structure Replacing (s background : State Key) (frames : List (Frame Key)) (node y : ℕ)
    (nodeCell : RBNode Key) (left right : Tree Key) (key : Key) : Prop where
  node_cell : s.heap.cell node = some nodeCell
  node_parent : nodeCell.parent = hole frames
  node_left : nodeCell.left = left.ptr
  y_cell : ∃ color parent inner, s.heap.cell y = some ⟨key, color, parent, inner, right.ptr⟩
  cell : ∀ other, other ≠ node → other ≠ y → s.heap.cell other =
    (left.cellAt (.node node) other).or ((right.cellAt (.node y) other).or
      ((contextCellAt frames (.node node) other).or (background.heap.cell other)))
  root : frames ≠ [] → ∀ focus, s.root = (plug focus frames).ptr
  nodup : (plug (.node y nodeCell.color left key right) frames).addresses.Nodup
  notMem : node ∉ (plug (.node y nodeCell.color left key right) frames).addresses

namespace Replacing

variable {s : State Key} {node y : ℕ} {nodeCell : RBNode Key} {left right : Tree Key} {key : Key}

/-- The two nodes, the subtrees and the nodes above have different addresses. -/
theorem apart (h : Replacing s background frames node y nodeCell left right key) :
    y ≠ node ∧
      (∀ other, other = node ∨ other = y → other ∉ left.addresses ∧ other ∉ right.addresses ∧
        other ∉ contextAddresses frames) ∧
      ∀ other ∈ contextAddresses frames, other ∉ left.addresses ∧ other ∉ right.addresses := by
  have hnodup := (nodup_addresses_plug _ _).mp h.nodup
  have hnotMem := mt (mem_addresses_plug _ _ _).mpr h.notMem
  simp only [Tree.addresses_node, List.nodup_append, List.nodup_cons, List.mem_append,
    List.mem_cons, not_or] at hnodup hnotMem
  refine ⟨?_, ?_, ?_⟩ <;> grind

/-- The node hangs under the node above it. -/
theorem hangsOn (h : Replacing s background frames node y nodeCell left right key) :
    HangsOn s frames (.node node) := by
  obtain ⟨-, hpair, hcontext⟩ := h.apart
  rintro frame rest rfl
  have hmem : frame.address ∈ contextAddresses (frame :: rest) :=
    (mem_contextAddresses_cons _ _ _).mpr (Or.inl rfl)
  have hne (other : ℕ) (hother : other = node ∨ other = y) : frame.address ≠ other :=
    fun heq ↦ (hpair other hother).2.2 (heq ▸ hmem)
  refine ⟨_, by rw [h.cell _ (hne node (Or.inl rfl)) (hne y (Or.inr rfl)),
    Tree.cellAt_eq_none (hcontext _ hmem).1, Tree.cellAt_eq_none (hcontext _ hmem).2,
    Option.none_or, Option.none_or, contextCellAt, if_pos rfl, Option.some_or],
    RBNode.ofSide_child .., ?_⟩
  rw [RBNode.ofSide_child_flip]
  intro hsibling
  exact (hpair node (Or.inl rfl)).2.2 ((mem_contextAddresses_cons _ _ _).mpr
    (Or.inr (Or.inl (Tree.mem_addresses_of_ptr hsibling))))

/-- The state once the successor is linked where the node was. -/
def linked (s : State Key) (frames : List (Frame Key)) (y : ℕ) (nodeCell : RBNode Key)
    (left : Tree Key) : State Key :=
  ((((s.relinked frames (.node y)).assign
    y fun node ↦ { node with parent := nodeCell.parent }).assign
      y fun node ↦ node.setChild .left nodeCell.left).adopted left (.node y)).assign
        y fun node ↦ { node with color := nodeCell.color }

/-- The statements that put the successor in the place of the node. -/
theorem exec (h : Replacing s background frames node y nodeCell left right key)
    (hleft : left ≠ .nil) {α : Type} (result : α) :
    (do transplant (.node node) (.node y)
        setChild (.node y) .left (← read (.node node)).left
        setParent (← read (.node y)).left (.node y)
        setColor (.node y) (← read (.node node)).color
        return result : TreeM Key α) s = .ok result (linked s frames y nodeCell left) := by
  obtain ⟨color, parent, inner, hy⟩ := h.y_cell
  obtain ⟨hne, hpair, hcontext⟩ := h.apart
  have hnode₁ : (s.relinked frames (.node y)).heap.cell node = some nodeCell := by
    rw [cell_relinked_of_notMem (hpair node (Or.inl rfl)).2.2, h.node_cell]
  have hy₁ : (s.relinked frames (.node y)).heap.cell y =
      some ⟨key, color, parent, inner, right.ptr⟩ := by
    rw [cell_relinked_of_notMem (hpair y (Or.inr rfl)).2.2, hy]
  have hptr (other : ℕ) (hother : other = node ∨ other = y) : left.ptr ≠ .node other :=
    fun heq ↦ (hpair other hother).1 (Tree.mem_addresses_of_ptr heq)
  have hlive (address : ℕ) (haddress : left.ptr = .node address) : address ≠ y ∧
      ∃ cell, (s.relinked frames (.node y)).heap.cell address = some cell := by
    have hmem := Tree.mem_addresses_of_ptr haddress
    obtain ⟨cell, hcell⟩ := Option.isSome_iff_exists.mp
      ((Tree.mem_addresses (.node node) _ _).mp hmem)
    have hne_node : address ≠ node := fun heq ↦ hptr node (Or.inl rfl) (heq ▸ haddress)
    have hne_y : address ≠ y := fun heq ↦ hptr y (Or.inr rfl) (heq ▸ haddress)
    refine ⟨hne_y, cell, ?_⟩
    rw [cell_relinked_of_notMem fun hmem' ↦ (hcontext address hmem').1 hmem,
      h.cell _ hne_node hne_y, hcell, Option.some_or]
  simp only [bind_assoc, transplant]
  rw [bind_ok (relink_run h.node_cell h.node_parent h.hangsOn), bind_ok (read_node hnode₁),
    bind_ok (setParent_node hy₁ _),
    bind_ok (read_node (by rw [cell_assign, if_neg hne.symm, hnode₁])),
    bind_ok (setChild_node (by rw [cell_assign, if_pos rfl, hy₁, Option.map_some]) _ _),
    bind_ok (read_node (by
      rw [cell_assign, if_pos rfl, cell_assign, if_pos rfl, hy₁, Option.map_some,
        Option.map_some]))]
  rw [RBNode.setChild, h.node_left, bind_ok (setParent_run hleft fun address haddress ↦ by
      obtain ⟨hne_y, hcell⟩ := hlive address haddress
      rw [cell_assign, if_neg hne_y, cell_assign, if_neg hne_y]
      exact hcell),
    bind_ok (read_node (by
      rw [cell_adopted, if_neg (hptr node (Or.inl rfl)), cell_assign, if_neg hne.symm, cell_assign,
        if_neg hne.symm, hnode₁])),
    bind_ok (setColor_node (by
      rw [cell_adopted, if_neg (hptr y (Or.inr rfl)), cell_assign, if_pos rfl, cell_assign,
        if_pos rfl, hy₁, Option.map_some, Option.map_some]) _), pure_apply, linked, h.node_left]

/-- The tree that is laid out once the successor is in the place of the node. -/
theorem linked_eq (h : Replacing s background frames node y nodeCell left right key)
    (hallocated : s.allocated = background.allocated) (hfreed : s.freed = background.freed)
    (hfuse : s.fuse = background.fuse) (hsize : s.size = background.size) :
    linked s frames y nodeCell left = lay (background.keeping node nodeCell s.nilNode)
      (plug (.node y nodeCell.color left key right) frames) := by
  obtain ⟨color, parent, inner, hy⟩ := h.y_cell
  obtain ⟨hne, hpair, hcontext⟩ := h.apart
  have hframe (other : ℕ) (hother : other = node ∨ other = y) :
      (s.relinked frames (.node y)).heap.cell other = s.heap.cell other :=
    cell_relinked_of_notMem (hpair other hother).2.2 _
  have hptr (other : ℕ) (hother : other = node ∨ other = y) : left.ptr ≠ .node other :=
    fun heq ↦ (hpair other hother).1 (Tree.mem_addresses_of_ptr heq)
  refine lay_ext (fun other ↦ ?_) ?_ rfl hallocated hfreed hfuse hsize
  · rw [cellAt_plug h.nodup, Option.or_assoc, cell_keeping, Tree.cellAt, Tree.ptr_node, linked]
    by_cases hother_y : other = y
    · rw [hother_y, cell_assign, if_pos rfl, cell_adopted, if_neg (hptr y (Or.inr rfl)),
        cell_assign, if_pos rfl, cell_assign, if_pos rfl, hframe y (Or.inr rfl), hy, if_pos rfl,
        h.node_parent, h.node_left]
      rfl
    by_cases hother_node : other = node
    · obtain ⟨hnotL, hnotR, hnotC⟩ := hpair node (Or.inl rfl)
      rw [hother_node, cell_assign, if_neg hne.symm, cell_adopted, if_neg (hptr node (Or.inl rfl)),
        cell_assign, if_neg hne.symm, cell_assign, if_neg hne.symm, hframe node (Or.inl rfl),
        h.node_cell, if_neg hne.symm, if_pos rfl, Tree.cellAt_eq_none hnotL,
        Tree.cellAt_eq_none hnotR, contextCellAt_eq_none hnotC]
      rfl
    · rw [cell_assign, if_neg hother_y, if_neg hother_y, if_neg hother_node, Option.or_assoc]
      refine cell_adopted_subtree (.node node) none ?_ fun _ ↦ rfl
      rw [cell_assign, if_neg hother_y, cell_assign, if_neg hother_y, Option.none_or,
        ← Option.or_assoc]
      refine cell_relinked (.node node) ?_ fun hmem ↦ ?_
      · rw [h.cell other hother_node hother_y, Option.or_assoc]
      · obtain ⟨hnotL, hnotR⟩ := hcontext other hmem
        rw [Tree.cellAt_eq_none hnotL, Tree.cellAt_eq_none hnotR, Option.none_or]
  · cases hframes : frames with
    | nil => rfl
    | cons frame rest =>
      rw [← hframes, ← h.root (by rw [hframes]; exact List.cons_ne_nil _ _), hframes]
      rfl

/-- The second half of `removeTwoChildren`: the successor takes the place of the node. -/
theorem run (h : Replacing s background frames node y nodeCell left right key) (hleft : left ≠ .nil)
    (hallocated : s.allocated = background.allocated) (hfreed : s.freed = background.freed)
    (hfuse : s.fuse = background.fuse) (hsize : s.size = background.size) {α : Type} (result : α) :
    (do transplant (.node node) (.node y)
        setChild (.node y) .left (← read (.node node)).left
        setParent (← read (.node y)).left (.node y)
        setColor (.node y) (← read (.node node)).color
        return result : TreeM Key α) s =
      .ok result (lay (background.keeping node nodeCell s.nilNode)
        (plug (.node y nodeCell.color left key right) frames)) := by
  rw [h.exec hleft, h.linked_eq hallocated hfreed hfuse hsize]

end Replacing

/-- The successor, after its right subtree was hung under it. -/
theorem Replacing.of_hung {s background : State Key} {node y : ℕ} {nodeCell : RBNode Key}
    {left right : Tree Key} {key : Key} {color : Color} {above below : Ptr} (parent : Ptr)
    (hnode : s.heap.cell node = some nodeCell) (hparent : nodeCell.parent = hole frames)
    (hleft : nodeCell.left = left.ptr)
    (hy : s.heap.cell y = some ⟨key, color, above, below, right.ptr⟩)
    (hcell : ∀ other, other ≠ node → other ≠ y → s.heap.cell other =
      (left.cellAt (.node node) other).or ((right.cellAt parent other).or
        ((contextCellAt frames (.node node) other).or (background.heap.cell other))))
    (hroot : frames ≠ [] → ∀ focus, s.root = (plug focus frames).ptr)
    (hnodup : (plug (.node y nodeCell.color left key right) frames).addresses.Nodup)
    (hnotMem : node ∉ (plug (.node y nodeCell.color left key right) frames).addresses) :
    Replacing (s.hung right (.node y)) background frames node y nodeCell left right key := by
  have hfocus := ((nodup_addresses_plug _ _).mp hnodup).1
  have hnode' := fun hmem ↦ hnotMem ((mem_addresses_plug _ _ _).mpr (Or.inl hmem))
  simp only [Tree.addresses_node, List.nodup_append, List.nodup_cons, List.mem_append,
    List.mem_cons] at hfocus hnode'
  have hright (address : ℕ) (haddress : right.ptr = .node address) :
      address ≠ node ∧ address ≠ y := by
    have hmem := Tree.mem_addresses_of_ptr haddress
    grind
  refine ⟨?_, hparent, hleft, ⟨color, above, below, ?_⟩, fun other hother hother' ↦ ?_, hroot,
    hnodup, hnotMem⟩
  · rw [State.cell_hung, cell_adopted, if_neg fun heq ↦ (hright node heq).1 rfl, hnode]
  · rw [State.cell_hung, cell_adopted, if_neg fun heq ↦ (hright y heq).2 rfl, hy]
  · apply cell_adopted_subtree parent _ (hcell other hother hother')
    intro hmem
    exact Tree.cellAt_eq_none (by grind) _

section TwoChildren

variable {z y : ℕ} {cz cy : Color} {kz ky : Key} {left yr : Tree Key} {inner : List (Frame Key)}

/-- The addresses once the successor is in the place of the node. -/
theorem nodup_successor (hnodup : (plug (.node z cz left kz
      (plug (.node y cy .nil ky yr) inner)) frames).addresses.Nodup) :
    (plug (.node y cz left ky (plug yr inner)) frames).addresses.Nodup ∧
      z ∉ (plug (.node y cz left ky (plug yr inner)) frames).addresses := by
  rw [nodup_addresses_plug] at hnodup
  have hright := nodup_addresses_plug (.node y cy .nil ky yr) inner
  have hmem := mem_addresses_plug (.node y cy .nil ky yr) inner
  have hright' := nodup_addresses_plug yr inner
  have hmem' := mem_addresses_plug yr inner
  simp only [Tree.addresses_node, Tree.addresses_nil, List.nil_append, List.nodup_append,
    List.nodup_cons, List.mem_append, List.mem_cons] at hnodup hright hmem
  constructor
  · rw [nodup_addresses_plug]
    simp only [Tree.addresses_node, List.nodup_append, List.nodup_cons, List.mem_cons]
    grind
  · rw [mem_addresses_plug]
    simp only [Tree.addresses_node, List.mem_append, List.mem_cons]
    grind

/-- The successor is the right child of the node, and keeps its right subtree. -/
theorem removeTwoChildren_child (hfits : Fits background
      (plug (.node z cz left kz (.node y cy .nil ky yr)) frames)) (hleft : left ≠ .nil)
    {α : Type} (result : α) :
    (do setParent yr.ptr (.node y)
        transplant (.node z) (.node y)
        setChild (.node y) .left (← read (.node z)).left
        setParent (← read (.node y)).left (.node y)
        setColor (.node y) (← read (.node z)).color
        return result : TreeM Key α)
        (lay background (plug (.node z cz left kz (.node y cy .nil ky yr)) frames)) =
      .ok result (lay (background.keeping z ⟨kz, cz, hole frames, left.ptr, .node y⟩
        (background.nilNode.anchored yr (.node y))) (plug (.node y cz left ky yr) frames)) := by
  have hbelow : Fits background
      (plug (.node y cy .nil ky yr) (⟨.right, z, cz, kz, left⟩ :: frames)) := hfits
  have hy := cell_focus hbelow
  obtain ⟨hnodup, hnotMem⟩ := nodup_successor
    (show (plug (.node z cz left kz (plug (.node y cy .nil ky yr) [])) frames).addresses.Nodup
      from hfits.nodup)
  have hlive (address : ℕ) (haddress : yr.ptr = .node address) :=
    live_of_mem (show address ∈ _ by simp [Tree.mem_addresses_of_ptr haddress]) hfits
  refine (bind_ok (setParent_hung _ hlive)).trans ?_
  have hreplacing : Replacing ((lay background
      (plug (.node z cz left kz (.node y cy .nil ky yr)) frames)).hung yr (.node y)) background
        frames z y ⟨kz, cz, hole frames, left.ptr, .node y⟩ left yr ky := by
    refine .of_hung (.node y) (cell_focus hfits) rfl rfl hy (fun other hz hy' ↦ ?_)
      (fun hframes focus ↦ root_lay_plug hframes _ focus) hnodup hnotMem
    rw [cell_lay_plug hfits, Tree.cellAt, if_neg hz, Tree.cellAt, if_neg hy', Tree.cellAt_nil,
      Option.none_or, Option.or_assoc]
    rfl
  exact hreplacing.run hleft rfl rfl rfl rfl result

/-- The successor was further down: it takes the right subtree of the node. -/
theorem removeTwoChildren_below {right : Tree Key} {yCell nilNode : RBNode Key}
    (hfits : Fits (background.keeping y yCell nilNode) (plug (.node z cz left kz right) frames))
    (hleft : left ≠ .nil) (hright : right ≠ .nil)
    (hy : y ∉ (plug (.node z cz left kz right) frames).addresses)
    (hnodup : (plug (.node y cz left yCell.data right) frames).addresses.Nodup)
    (hnotMem : z ∉ (plug (.node y cz left yCell.data right) frames).addresses)
    {α : Type} (result : α) :
    (do setChild (.node y) .right (← read (.node z)).right
        setParent (← read (.node y)).right (.node y)
        transplant (.node z) (.node y)
        setChild (.node y) .left (← read (.node z)).left
        setParent (← read (.node y)).left (.node y)
        setColor (.node y) (← read (.node z)).color
        return result : TreeM Key α)
        (lay (background.keeping y yCell nilNode) (plug (.node z cz left kz right) frames)) =
      .ok result (lay (background.keeping z ⟨kz, cz, hole frames, left.ptr, right.ptr⟩ nilNode)
        (plug (.node y cz left yCell.data right) frames)) := by
  set s := lay (background.keeping y yCell nilNode) (plug (.node z cz left kz right) frames) with hs
  have hz : s.heap.cell z = some ⟨kz, cz, hole frames, left.ptr, right.ptr⟩ := cell_focus hfits
  have hcell (other : ℕ) (hother : other ≠ y) : s.heap.cell other =
      ((Tree.node z cz left kz right).cellAt (hole frames) other).or
        ((contextCellAt frames (.node z) other).or (background.heap.cell other)) := by
    rw [hs, cell_lay_plug hfits, cell_keeping, if_neg hother]
    rfl
  have hy₀ : s.heap.cell y = some yCell := by
    rw [hs, cell_lay, Tree.cellAt_eq_none hy, cell_keeping, if_pos rfl]
    rfl
  have hy₁ : (s.assign y fun node ↦ node.setChild .right right.ptr).heap.cell y =
      some ⟨yCell.data, yCell.color, yCell.parent, yCell.left, right.ptr⟩ := by
    rw [cell_assign, if_pos rfl, hy₀]
    rfl
  have hne (other : ℕ) (hmem : other ∈ (Tree.node z cz left kz right).addresses) : other ≠ y := by
    rintro rfl
    exact hy ((mem_addresses_plug _ _ _).mpr (Or.inl hmem))
  have hlive (address : ℕ) (haddress : right.ptr = .node address) : ∃ node,
      (s.assign y fun node ↦ node.setChild .right right.ptr).heap.cell address = some node := by
    have hmem : address ∈ (Tree.node z cz left kz right).addresses := by
      simp [Tree.mem_addresses_of_ptr haddress]
    rw [cell_assign, if_neg (hne address hmem)]
    exact live_of_mem hmem hfits
  have hroot (hframes : frames ≠ []) (focus : Tree Key) : s.root = (plug focus frames).ptr :=
    root_lay_plug hframes _ focus
  have hreplacing : Replacing ((s.assign y fun node ↦ node.setChild .right right.ptr).hung right
      (.node y)) background frames z y ⟨kz, cz, hole frames, left.ptr, right.ptr⟩ left right
        yCell.data := by
    refine .of_hung (.node z) ?_ rfl rfl hy₁ (fun other hz hy' ↦ ?_)
      hroot hnodup hnotMem
    · rw [cell_assign, if_neg (hne z (by simp)), hz]
    · rw [cell_assign, if_neg hy', hcell other hy', Tree.cellAt, if_neg hz, Option.or_assoc]
  rw [bind_ok (read_node hz), bind_ok (setChild_node hy₀ _ _), bind_ok (read_node hy₁)]
  refine (bind_ok (setParent_hung _ hlive)).trans ?_
  refine (hreplacing.run hleft rfl rfl rfl rfl result).trans ?_
  cases right with
  | nil => exact absurd rfl hright
  | node => rfl

/-- The first half of `RemoveOne` at a node with two children. -/
theorem removeTwoChildren_lay (hfits : Fits background
      (plug (.node z cz left kz (plug (.node y cy .nil ky yr) inner)) frames))
    (hleft : left ≠ .nil)
    (hminimum : getMinimum (plug (.node y cy .nil ky yr) inner).ptr (lay background
      (plug (.node z cz left kz (plug (.node y cy .nil ky yr) inner)) frames)) =
        .ok (.node y) (lay background
          (plug (.node z cz left kz (plug (.node y cy .nil ky yr) inner)) frames))) :
    ∃ cell, removeTwoChildren (.node z) (lay background
        (plug (.node z cz left kz (plug (.node y cy .nil ky yr) inner)) frames)) =
      .ok (yr.ptr, cy) (lay (background.keeping z cell
        (background.nilNode.anchored yr (hole (inner ++ [⟨.right, y, cz, ky, left⟩]))))
          (plug yr (inner ++ ⟨.right, y, cz, ky, left⟩ :: frames))) := by
  have hinner (focus : Tree Key) : plug (.node z cz left kz (plug focus inner)) frames =
      plug focus (inner ++ ⟨.right, z, cz, kz, left⟩ :: frames) := by
    rw [plug_append]
    rfl
  have houter : plug yr (inner ++ ⟨.right, y, cz, ky, left⟩ :: frames) =
      plug (.node y cz left ky (plug yr inner)) frames := by
    rw [plug_append]
    rfl
  have hbelow := hfits
  rw [hinner] at hbelow
  have hy := read_focus hbelow
  rw [← hinner] at hy
  obtain ⟨hnodup, hnotMem⟩ := nodup_successor hfits.nodup
  unfold removeTwoChildren
  rw [bind_ok (read_focus hfits), bind_ok hminimum, bind_ok hy, bind_ok hy, bind_ok hy, houter]
  cases inner with
  | nil =>
    rw [if_pos (show hole ([] ++ ⟨.right, z, cz, kz, left⟩ :: frames) = .node z from rfl)]
    exact ⟨_, removeTwoChildren_child hfits hleft (yr.ptr, cy)⟩
  | cons frame rest =>
    have hparent : hole (frame :: rest ++ ⟨.right, z, cz, kz, left⟩ :: frames) ≠ .node z := by
      have hmem := (mem_contextAddresses_cons frame rest frame.address).mpr (Or.inl rfl)
      intro heq
      refine hnotMem ((mem_addresses_plug _ _ _).mpr (Or.inl ?_))
      have hin := (mem_addresses_plug yr (frame :: rest) frame.address).mpr (Or.inr hmem)
      rw [Ptr.node.inj heq] at hin
      rw [Tree.addresses_node]
      exact List.mem_append_right _ (List.mem_cons_of_mem _ hin)
    obtain ⟨hdetached, hy_notMem⟩ := hbelow.detached
      (inorder_plug yr (frame :: rest ++ ⟨.right, z, cz, kz, left⟩ :: frames))
    have htransplant := transplant_lay .left hbelow
    rw [show Tree.branch .left y cy .nil ky yr = .node y cy .nil ky yr from rfl] at htransplant
    rw [← hinner, ← hinner] at htransplant
    rw [← hinner] at hdetached hy_notMem
    rw [if_neg hparent, bind_ok hy]
    have hright : plug yr (frame :: rest) ≠ .nil :=
      plug_ne_nil (show frame.plug yr ≠ .nil from Tree.branch_ne_nil _ _ _ _ _ _) rest
    exact ⟨_, (bind_ok htransplant).trans (removeTwoChildren_below
      (hdetached.keeping hy_notMem _ _) hleft hright hy_notMem hnodup hnotMem (yr.ptr, cy))⟩

end TwoChildren

end StudStuff.RedBlackTree
