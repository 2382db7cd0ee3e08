import Mathlib.Data.List.Nodup
import StudStuff.RedBlackTree.Operations

/-!
# Shapes of trees, contexts and their layout in memory

A `Tree` is the shape that a root pointer reaches: a binary tree whose nodes carry their
address, colour and key. A position in a tree is the subtree at that position, the focus,
together with the list of `Frame`s from its parent up to the root; `plug` puts the focus back.
`inorder` lists addresses with keys from left to right, and `inorder_plug` splits it around a
focus.

`cellAt` is the content that a tree prescribes for an address: key and colour of the node, its
children, and the parent it hangs under. `lay background tree` is the state in which the cells of
a tree are written over a background that holds everything else (the other trees, the sentinel,
the counters). `Fits` says that the tree has its own addresses and that they are free in the
background. Every operation is then an equation between laid out states: reads at a focus are
`read_focus`, and two states are compared cell by cell with `lay_eq_of_cells`.
-/

set_option autoImplicit false
set_option relaxedAutoImplicit false

namespace StudStuff.RedBlackTree

open Lib

variable {Key : Type}

/-! ### Nodes seen from a side -/

namespace RBNode

/-- A node given by its child on a side and its child on the other side. -/
def ofSide (side : Side) (key : Key) (color : Color) (parent inner outer : Ptr) : RBNode Key :=
  match side with
  | .left => ⟨key, color, parent, inner, outer⟩
  | .right => ⟨key, color, parent, outer, inner⟩

variable (side : Side) (key : Key) (color : Color) (parent inner outer : Ptr)

@[simp] theorem ofSide_data : (ofSide side key color parent inner outer).data = key := by
  cases side <;> rfl

@[simp] theorem ofSide_color : (ofSide side key color parent inner outer).color = color := by
  cases side <;> rfl

@[simp] theorem ofSide_parent : (ofSide side key color parent inner outer).parent = parent := by
  cases side <;> rfl

@[simp] theorem ofSide_child : (ofSide side key color parent inner outer).child side = inner := by
  cases side <;> rfl

@[simp] theorem ofSide_child_flip :
    (ofSide side key color parent inner outer).child side.flip = outer := by
  cases side <;> rfl

@[simp] theorem ofSide_setChild (child : Ptr) :
    (ofSide side key color parent inner outer).setChild side child =
      ofSide side key color parent child outer := by
  cases side <;> rfl

@[simp] theorem ofSide_setChild_flip (child : Ptr) :
    (ofSide side key color parent inner outer).setChild side.flip child =
      ofSide side key color parent inner child := by
  cases side <;> rfl

end RBNode

/-! ### Shapes -/

/-- The shape reached from a pointer: the sentinel, or a node with its two subtrees. -/
inductive Tree (Key : Type)
  | nil
  | node (address : ℕ) (color : Color) (left : Tree Key) (key : Key) (right : Tree Key)

namespace Tree

/-- The pointer to the root of a shape. -/
def ptr : Tree Key → Ptr
  | nil => .nil
  | node address _ _ _ _ => .node address

/-- The colour of the root; the sentinel is black. -/
def color : Tree Key → Color
  | nil => .black
  | node _ color _ _ _ => color

/-- The shape with its root recoloured. -/
def recolor : Tree Key → Color → Tree Key
  | nil, _ => nil
  | node address _ left key right, color => node address color left key right

/-- Addresses and keys from left to right. -/
def inorder : Tree Key → List (ℕ × Key)
  | nil => []
  | node address _ left key right => left.inorder ++ (address, key) :: right.inorder

/-- The addresses of the nodes from left to right. -/
def addresses (tree : Tree Key) : List ℕ := tree.inorder.map Prod.fst

/-- The keys from left to right. -/
def keys (tree : Tree Key) : List Key := tree.inorder.map Prod.snd

/-- The number of nodes. -/
def size : Tree Key → ℕ
  | nil => 0
  | node _ _ left _ right => left.size + right.size + 1

/-- A node given by its child on a side and its child on the other side. -/
def branch (side : Side) (address : ℕ) (color : Color) (inner : Tree Key) (key : Key)
    (outer : Tree Key) : Tree Key :=
  match side with
  | .left => node address color inner key outer
  | .right => node address color outer key inner

@[simp] theorem ptr_nil : (nil : Tree Key).ptr = .nil := rfl

@[simp] theorem ptr_node (address : ℕ) (color : Color) (left : Tree Key) (key : Key)
    (right : Tree Key) : (node address color left key right).ptr = .node address :=
  rfl

@[simp] theorem ptr_branch (side : Side) (address : ℕ) (color : Color) (inner : Tree Key)
    (key : Key) (outer : Tree Key) :
    (branch side address color inner key outer).ptr = .node address := by
  cases side <;> rfl

@[simp] theorem branch_ne_nil (side : Side) (address : ℕ) (color : Color) (inner : Tree Key)
    (key : Key) (outer : Tree Key) : branch side address color inner key outer ≠ nil := by
  cases side <;> simp [branch]

@[simp] theorem ptr_recolor (tree : Tree Key) (color : Color) :
    (tree.recolor color).ptr = tree.ptr := by
  cases tree <;> rfl

@[simp] theorem ptr_ne_null (tree : Tree Key) : tree.ptr ≠ .null := by
  cases tree <;> simp [ptr]

theorem ptr_eq_nil_iff (tree : Tree Key) : tree.ptr = .nil ↔ tree = nil := by
  cases tree <;> simp [ptr]

@[simp] theorem color_nil : (nil : Tree Key).color = .black := rfl

@[simp] theorem color_node (address : ℕ) (color : Color) (left : Tree Key) (key : Key)
    (right : Tree Key) : (node address color left key right).color = color :=
  rfl

@[simp] theorem color_branch (side : Side) (address : ℕ) (color : Color) (inner : Tree Key)
    (key : Key) (outer : Tree Key) :
    (branch side address color inner key outer).color = color := by
  cases side <;> rfl

@[simp] theorem inorder_nil : (nil : Tree Key).inorder = [] := rfl

@[simp] theorem inorder_node (address : ℕ) (color : Color) (left : Tree Key) (key : Key)
    (right : Tree Key) : (node address color left key right).inorder =
      left.inorder ++ (address, key) :: right.inorder :=
  rfl

@[simp] theorem inorder_recolor (tree : Tree Key) (color : Color) :
    (tree.recolor color).inorder = tree.inorder := by
  cases tree <;> rfl

@[simp] theorem recolor_nil (color : Color) : (nil : Tree Key).recolor color = nil := rfl

@[simp] theorem recolor_node (address : ℕ) (color color' : Color) (left : Tree Key) (key : Key)
    (right : Tree Key) : (node address color left key right).recolor color' =
      node address color' left key right :=
  rfl

@[simp] theorem recolor_branch (side : Side) (address : ℕ) (color color' : Color)
    (inner : Tree Key) (key : Key) (outer : Tree Key) :
    (branch side address color inner key outer).recolor color' =
      branch side address color' inner key outer := by
  cases side <;> rfl

@[simp] theorem addresses_nil : (nil : Tree Key).addresses = [] := rfl

@[simp] theorem addresses_node (address : ℕ) (color : Color) (left : Tree Key) (key : Key)
    (right : Tree Key) : (node address color left key right).addresses =
      left.addresses ++ address :: right.addresses := by
  simp [addresses]

@[simp] theorem addresses_recolor (tree : Tree Key) (color : Color) :
    (tree.recolor color).addresses = tree.addresses := by
  simp [addresses]

@[simp] theorem mem_addresses_branch (side : Side) (address : ℕ) (color : Color)
    (inner : Tree Key) (key : Key) (outer : Tree Key) (other : ℕ) :
    other ∈ (branch side address color inner key outer).addresses ↔
      other = address ∨ other ∈ inner.addresses ∨ other ∈ outer.addresses := by
  cases side <;> simp [branch] <;> tauto

theorem nodup_addresses_branch (side : Side) (address : ℕ) (color : Color)
    (inner : Tree Key) (key : Key) (outer : Tree Key) :
    (branch side address color inner key outer).addresses.Nodup ↔
      inner.addresses.Nodup ∧ outer.addresses.Nodup ∧ address ∉ inner.addresses ∧
        address ∉ outer.addresses ∧ ∀ other ∈ inner.addresses, other ∉ outer.addresses := by
  cases side <;>
    simp only [branch, addresses_node, List.nodup_append, List.nodup_cons, List.mem_cons] <;>
    grind

/-- The number of nodes is the length of the listing. -/
theorem length_inorder (tree : Tree Key) : tree.inorder.length = tree.size := by
  induction tree with
  | nil => rfl
  | node address color left key right ihl ihr =>
    simp only [inorder_node, List.length_append, List.length_cons, size, ihl, ihr]
    omega

@[simp] theorem length_addresses (tree : Tree Key) : tree.addresses.length = tree.size := by
  rw [addresses, List.length_map, length_inorder]

@[simp] theorem length_keys (tree : Tree Key) : tree.keys.length = tree.size := by
  rw [keys, List.length_map, length_inorder]

/-! ### What a tree prescribes for an address -/

/-- The content of an address in a tree that hangs under a given parent. -/
def cellAt : Ptr → Tree Key → ℕ → Option (RBNode Key)
  | _, nil, _ => none
  | parent, node address color left key right, other =>
    if other = address then some ⟨key, color, parent, left.ptr, right.ptr⟩
    else (cellAt (.node address) left other).or (cellAt (.node address) right other)

@[simp] theorem cellAt_nil (parent : Ptr) (other : ℕ) :
    cellAt parent (nil : Tree Key) other = none :=
  rfl

theorem mem_addresses (parent : Ptr) (tree : Tree Key) (other : ℕ) :
    other ∈ tree.addresses ↔ (cellAt parent tree other).isSome := by
  induction tree generalizing parent with
  | nil => simp
  | node address color left key right ihl ihr =>
    simp only [addresses_node, List.mem_append, List.mem_cons, cellAt]
    rw [ihl (.node address), ihr (.node address)]
    split_ifs with h <;> simp [h]

theorem cellAt_eq_none {tree : Tree Key} {other : ℕ} (h : other ∉ tree.addresses) (parent : Ptr) :
    cellAt parent tree other = none := by
  rw [mem_addresses parent, Option.not_isSome_iff_eq_none] at h
  exact h

/-- The cells of a node given by its child on a side and its child on the other side. -/
theorem cellAt_branch {side : Side} {address : ℕ} {color : Color} {inner outer : Tree Key}
    {key : Key} (h : (branch side address color inner key outer).addresses.Nodup) (parent : Ptr)
    (other : ℕ) : cellAt parent (branch side address color inner key outer) other =
      if other = address then
        some (.ofSide side key color parent inner.ptr outer.ptr)
      else (cellAt (.node address) inner other).or (cellAt (.node address) outer other) := by
  cases side with
  | left => rfl
  | right =>
    have hdisjoint := ((nodup_addresses_branch _ _ _ _ _ _).mp h).2.2.2.2
    simp only [branch, cellAt]
    by_cases hmem : other ∈ inner.addresses
    · rw [cellAt_eq_none (hdisjoint other hmem), Option.none_or, Option.or_none]
      rfl
    · rw [cellAt_eq_none hmem, Option.none_or, Option.or_none]
      rfl

/-- Hanging a tree under another parent changes the parent field of its root and nothing else. -/
theorem cellAt_parent (parent parent' : Ptr) (tree : Tree Key) (other : ℕ) :
    cellAt parent' tree other =
      if tree.ptr = .node other then
        (cellAt parent tree other).map fun node ↦ { node with parent := parent' }
      else cellAt parent tree other := by
  cases tree with
  | nil => simp
  | node address color left key right =>
    simp only [cellAt, ptr_node, Ptr.node.injEq, eq_comm (a := address)]
    split_ifs with h
    · simp
    · rfl

theorem cellAt_recolor (parent : Ptr) (tree : Tree Key) (color : Color) (other : ℕ) :
    cellAt parent (tree.recolor color) other =
      if tree.ptr = .node other then
        (cellAt parent tree other).map fun node ↦ { node with color := color }
      else cellAt parent tree other := by
  cases tree with
  | nil => simp
  | node address color' left key right =>
    simp only [recolor_node, cellAt, ptr_node, Ptr.node.injEq, eq_comm (a := address)]
    split_ifs with h
    · simp
    · rfl

/-- The root of a tree is one of its addresses. -/
theorem mem_addresses_of_ptr {tree : Tree Key} {other : ℕ} (h : tree.ptr = .node other) :
    other ∈ tree.addresses := by
  cases tree with
  | nil => simp at h
  | node address color left key right =>
    simp only [ptr_node, Ptr.node.injEq] at h
    simp [h]

end Tree

/-- The node above a focus: the side the focus hangs on, and the rest of the node. -/
structure Frame (Key : Type) where
  side : Side
  address : ℕ
  color : Color
  key : Key
  sibling : Tree Key

/-- The subtree at the node of a frame. -/
def Frame.plug (frame : Frame Key) (focus : Tree Key) : Tree Key :=
  .branch frame.side frame.address frame.color focus frame.key frame.sibling

/-- The whole tree around a focus. The frames run from the parent of the focus up to the root. -/
def plug : Tree Key → List (Frame Key) → Tree Key
  | focus, [] => focus
  | focus, frame :: rest => plug (frame.plug focus) rest

/-- The parent of the focus. -/
def hole : List (Frame Key) → Ptr
  | [] => .nil
  | frame :: _ => .node frame.address

/-- What the frames list before the focus. -/
def before : List (Frame Key) → List (ℕ × Key)
  | [] => []
  | frame :: rest =>
    match frame.side with
    | .left => before rest
    | .right => before rest ++ (frame.sibling.inorder ++ [(frame.address, frame.key)])

/-- What the frames list after the focus. -/
def after : List (Frame Key) → List (ℕ × Key)
  | [] => []
  | frame :: rest =>
    match frame.side with
    | .left => (frame.address, frame.key) :: (frame.sibling.inorder ++ after rest)
    | .right => after rest

@[simp] theorem plug_nil (focus : Tree Key) : plug focus [] = focus := rfl

@[simp] theorem plug_cons (focus : Tree Key) (frame : Frame Key) (rest : List (Frame Key)) :
    plug focus (frame :: rest) = plug (frame.plug focus) rest :=
  rfl

@[simp] theorem hole_nil : hole ([] : List (Frame Key)) = .nil := rfl

@[simp] theorem hole_cons (frame : Frame Key) (rest : List (Frame Key)) :
    hole (frame :: rest) = .node frame.address :=
  rfl

/-- The frames between a focus and a position above it can be split off. -/
theorem plug_append (focus : Tree Key) (inner outer : List (Frame Key)) :
    plug focus (inner ++ outer) = plug (plug focus inner) outer := by
  induction inner generalizing focus with
  | nil => rfl
  | cons frame rest ih => exact ih (frame.plug focus)

/-- The same node seen from its other side. -/
theorem Tree.branch_flip (side : Side) (address : ℕ) (color : Color) (inner : Tree Key) (key : Key)
    (outer : Tree Key) : Tree.branch side.flip address color outer key inner =
      Tree.branch side address color inner key outer := by
  cases side <;> rfl

/-- A tree with a node in it is not empty. -/
theorem plug_ne_nil {focus : Tree Key} (h : focus ≠ .nil) (frames : List (Frame Key)) :
    plug focus frames ≠ .nil := by
  induction frames generalizing focus with
  | nil => exact h
  | cons frame rest ih => exact ih (Tree.branch_ne_nil _ _ _ _ _ _)

/-- The frame above the sibling of a focus. -/
def Frame.swap (frame : Frame Key) (focus : Tree Key) : Frame Key :=
  { frame with side := frame.side.flip, sibling := focus }

/-- A tree seen from the sibling of a focus. -/
theorem plug_swap (focus : Tree Key) (frame : Frame Key) (rest : List (Frame Key)) :
    plug frame.sibling (frame.swap focus :: rest) = plug focus (frame :: rest) :=
  congrArg (plug · rest) (Tree.branch_flip _ _ _ _ _ _)

/-- The listing of a tree around a focus. -/
theorem inorder_plug (focus : Tree Key) (frames : List (Frame Key)) :
    (plug focus frames).inorder = before frames ++ (focus.inorder ++ after frames) := by
  induction frames generalizing focus with
  | nil => simp [before, after]
  | cons frame rest ih =>
    rw [plug_cons, ih, Frame.plug]
    cases hside : frame.side <;> simp [Tree.branch, before, after, hside]

/-- The addresses of a context. -/
def contextAddresses (frames : List (Frame Key)) : List ℕ :=
  (before frames ++ after frames).map Prod.fst

theorem nodup_addresses_plug (focus : Tree Key) (frames : List (Frame Key)) :
    (plug focus frames).addresses.Nodup ↔
      focus.addresses.Nodup ∧ (contextAddresses frames).Nodup ∧
        ∀ other ∈ focus.addresses, other ∉ contextAddresses frames := by
  simp only [Tree.addresses, contextAddresses, inorder_plug, List.map_append, List.nodup_append,
    List.mem_append]
  grind

theorem mem_addresses_plug (focus : Tree Key) (frames : List (Frame Key)) (other : ℕ) :
    other ∈ (plug focus frames).addresses ↔
      other ∈ focus.addresses ∨ other ∈ contextAddresses frames := by
  simp only [Tree.addresses, contextAddresses, inorder_plug, List.map_append, List.mem_append]
  tauto

theorem mem_contextAddresses_cons (frame : Frame Key) (rest : List (Frame Key)) (other : ℕ) :
    other ∈ contextAddresses (frame :: rest) ↔
      other = frame.address ∨ other ∈ frame.sibling.addresses ∨ other ∈ contextAddresses rest := by
  cases hside : frame.side <;>
    simp [contextAddresses, before, after, hside, Tree.addresses] <;> tauto

theorem nodup_contextAddresses_cons (frame : Frame Key) (rest : List (Frame Key)) :
    (contextAddresses (frame :: rest)).Nodup ↔
      frame.sibling.addresses.Nodup ∧ (contextAddresses rest).Nodup ∧
        frame.address ∉ frame.sibling.addresses ∧ frame.address ∉ contextAddresses rest ∧
        ∀ other ∈ frame.sibling.addresses, other ∉ contextAddresses rest := by
  cases hside : frame.side <;>
    simp only [contextAddresses, before, after, hside, Tree.addresses, List.map_append,
      List.map_cons, List.map_nil, List.nodup_append, List.nodup_cons, List.mem_append,
      List.mem_cons, List.not_mem_nil, or_false, List.nodup_nil] <;>
    grind

/-- The content of an address in a context whose hole is filled by a given child. -/
def contextCellAt : List (Frame Key) → Ptr → ℕ → Option (RBNode Key)
  | [], _, _ => none
  | frame :: rest, child, other =>
    if other = frame.address then
      some (.ofSide frame.side frame.key frame.color (hole rest) child frame.sibling.ptr)
    else (frame.sibling.cellAt (.node frame.address) other).or
      (contextCellAt rest (.node frame.address) other)

theorem contextCellAt_eq_none {frames : List (Frame Key)} {other : ℕ}
    (h : other ∉ contextAddresses frames) (child : Ptr) :
    contextCellAt frames child other = none := by
  induction frames generalizing child with
  | nil => rfl
  | cons frame rest ih =>
    rw [mem_contextAddresses_cons] at h
    simp only [not_or] at h
    rw [contextCellAt, if_neg h.1, Tree.cellAt_eq_none h.2.1, ih h.2.2, Option.or_none]

/-- Filling the hole with another child changes one field of the frame above it. -/
theorem contextCellAt_child (frame : Frame Key) (rest : List (Frame Key)) (child child' : Ptr)
    (other : ℕ) :
    contextCellAt (frame :: rest) child' other =
      if other = frame.address then
        (contextCellAt (frame :: rest) child other).map fun node ↦ node.setChild frame.side child'
      else contextCellAt (frame :: rest) child other := by
  simp only [contextCellAt]
  split_ifs with h
  · rw [Option.map_some, RBNode.ofSide_setChild]
  · rfl

theorem cellAt_plug {focus : Tree Key} {frames : List (Frame Key)}
    (h : (plug focus frames).addresses.Nodup) (other : ℕ) :
    (plug focus frames).cellAt .nil other =
      (focus.cellAt (hole frames) other).or (contextCellAt frames focus.ptr other) := by
  induction frames generalizing focus with
  | nil => simp [contextCellAt]
  | cons frame rest ih =>
    have hnodup := (nodup_addresses_plug focus (frame :: rest)).mp h
    have hcontext := (nodup_contextAddresses_cons frame rest).mp hnodup.2.1
    have hdisjoint := fun address haddress ↦ mt (mem_contextAddresses_cons frame rest address).mpr
      (hnodup.2.2 address haddress)
    rw [plug_cons, ih h, Frame.plug, Tree.ptr_branch, hole_cons, contextCellAt]
    by_cases haddress : other = frame.address
    · have hfocus : other ∉ focus.addresses := fun hmem ↦ hdisjoint other hmem (Or.inl haddress)
      rw [Tree.cellAt_eq_none hfocus]
      cases hside : frame.side <;> simp [Tree.branch, Tree.cellAt, haddress, RBNode.ofSide]
    · cases hside : frame.side with
      | left => simp [Tree.branch, Tree.cellAt, haddress, Option.or_assoc]
      | right =>
        by_cases hfocus : other ∈ focus.addresses
        · have hsibling : other ∉ frame.sibling.addresses := fun hmem ↦
            hdisjoint other hfocus (Or.inr (Or.inl hmem))
          simp [Tree.branch, Tree.cellAt, haddress, Tree.cellAt_eq_none hsibling]
        · simp [Tree.branch, Tree.cellAt, haddress, Tree.cellAt_eq_none hfocus]

/-! ### Laying a tree out in memory -/

/-- The state in which the cells of a tree are written over a background, with the root pointer
of the object on it. -/
def lay (background : State Key) (tree : Tree Key) : State Key :=
  { background with
    heap := background.heap.overlay (tree.cellAt .nil) tree.addresses (Tree.mem_addresses .nil tree)
    root := tree.ptr }

/-- A tree has its own addresses, all free in the background. -/
structure Fits (background : State Key) (tree : Tree Key) : Prop where
  nodup : tree.addresses.Nodup
  free : ∀ address ∈ tree.addresses, background.heap.cell address = none

@[simp] theorem cell_lay (background : State Key) (tree : Tree Key) (other : ℕ) :
    (lay background tree).heap.cell other =
      (tree.cellAt .nil other).or (background.heap.cell other) :=
  rfl

@[simp] theorem root_lay (background : State Key) (tree : Tree Key) :
    (lay background tree).root = tree.ptr :=
  rfl

@[simp] theorem nilNode_lay (background : State Key) (tree : Tree Key) :
    (lay background tree).nilNode = background.nilNode :=
  rfl

@[simp] theorem fuse_lay (background : State Key) (tree : Tree Key) :
    (lay background tree).fuse = background.fuse :=
  rfl

@[simp] theorem size_lay (background : State Key) (tree : Tree Key) :
    (lay background tree).size = background.size :=
  rfl

@[simp] theorem allocated_lay (background : State Key) (tree : Tree Key) :
    (lay background tree).allocated = background.allocated :=
  rfl

@[simp] theorem live_lay (background : State Key) (tree : Tree Key) :
    (lay background tree).heap.live = background.heap.live ∪ tree.addresses.toFinset :=
  rfl

end StudStuff.RedBlackTree
