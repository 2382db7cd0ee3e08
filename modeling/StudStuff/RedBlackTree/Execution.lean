import StudStuff.Lib.Execution
import StudStuff.RedBlackTree.Shape

/-!
# Running programs on laid out states

The rules by which programs are executed. `read_node` and `write_node` run an access to a live
node, and the effect of an assignment is `State.assign`. The three composite steps of the tree,
hanging a possibly empty subtree under a node (`adopt_run`), replacing a child of the node above a
focus (`relink_run`) and recolouring the root of a focus (`setColor_lay`), are executed once and
for all, and `lay_ext` compares the result with the layout of a shape.
-/

set_option autoImplicit false
set_option relaxedAutoImplicit false

namespace StudStuff.RedBlackTree

open Lib

variable {Key : Type}

/-! ### Control structure -/

@[simp] theorem setRoot_apply (ptr : Ptr) (s : State Key) :
    setRoot ptr s = .ok () { s with root := ptr } :=
  rfl

@[simp] theorem setSize_apply (count : ℕ) (s : State Key) :
    setSize count s = .ok () { s with size := count } :=
  rfl

@[simp] theorem fuel_apply (s : State Key) : fuel s = .ok (s.heap.live.card + 2) s := rfl

theorem require_apply {condition : Bool} (h : condition = true) (reason : Fault) (s : State Key) :
    require condition reason s = .ok () s := by
  rw [require, if_pos h, pure_apply]

theorem mayThrow_apply {s : State Key} (h : s.fuse = none) : mayThrow s = .ok () s := by
  rw [mayThrow, h]

/-- An operation that may throw and succeeds, with or without a limit on those that do. -/
theorem mayThrow_map {s : State Key} {fuse : Option ℕ} (h : s.fuse = fuse.map (· + 1)) :
    mayThrow s = .ok () { s with fuse := fuse } := by
  cases fuse with
  | none => exact (mayThrow_apply h).trans (by rw [← show s.fuse = none from h])
  | some count => rw [mayThrow, show s.fuse = some (count + 1) from h]

/-! ### Accesses -/

/-- The state after an assignment to a field of a live node. -/
def State.assign (s : State Key) (address : ℕ) (change : RBNode Key → RBNode Key) : State Key :=
  { s with heap := s.heap.modify address change }

@[simp] theorem cell_assign (s : State Key) (address other : ℕ)
    (change : RBNode Key → RBNode Key) : (s.assign address change).heap.cell other =
      if other = address then (s.heap.cell other).map change else s.heap.cell other :=
  rfl

@[simp] theorem read_nil (s : State Key) : read .nil s = .ok s.nilNode s := rfl

theorem read_node {s : State Key} {address : ℕ} {node : RBNode Key}
    (h : s.heap.cell address = some node) : read (.node address) s = .ok node s := by
  simp [read, h]

theorem write_node {s : State Key} {address : ℕ} {node : RBNode Key}
    (h : s.heap.cell address = some node) (change : RBNode Key → RBNode Key) :
    write (.node address) change s = .ok () (s.assign address change) := by
  simp [write, h, State.assign]

theorem setColor_node {s : State Key} {address : ℕ} {node : RBNode Key}
    (h : s.heap.cell address = some node) (color : Color) :
    setColor (.node address) color s =
      .ok () (s.assign address fun node ↦ { node with color := color }) :=
  write_node h _

theorem setParent_node {s : State Key} {address : ℕ} {node : RBNode Key}
    (h : s.heap.cell address = some node) (parent : Ptr) :
    setParent (.node address) parent s =
      .ok () (s.assign address fun node ↦ { node with parent := parent }) :=
  write_node h _

theorem setChild_node {s : State Key} {address : ℕ} {node : RBNode Key}
    (h : s.heap.cell address = some node) (side : Side) (child : Ptr) :
    setChild (.node address) side child s =
      .ok () (s.assign address fun node ↦ node.setChild side child) :=
  write_node h _

/-- The state after a subtree, if there is one, was hung under a parent. -/
def State.adopted (s : State Key) (child : Tree Key) (parent : Ptr) : State Key :=
  { s with
    heap := match child with
      | .nil => s.heap
      | .node address _ _ _ _ => s.heap.modify address fun node ↦ { node with parent := parent } }

theorem cell_adopted (s : State Key) (child : Tree Key) (parent : Ptr) (other : ℕ) :
    (s.adopted child parent).heap.cell other =
      if child.ptr = .node other then
        (s.heap.cell other).map fun node ↦ { node with parent := parent }
      else s.heap.cell other := by
  cases child with
  | nil => simp [State.adopted]
  | node address color left key right => simp [State.adopted, eq_comm]

theorem setParent_run {s : State Key} {child : Tree Key} {parent : Ptr} (hchild : child ≠ .nil)
    (hlive : ∀ address, child.ptr = .node address → ∃ node, s.heap.cell address = some node) :
    setParent child.ptr parent s = .ok () (s.adopted child parent) := by
  cases child with
  | nil => exact absurd rfl hchild
  | node address color left key right =>
    obtain ⟨node, hnode⟩ := hlive address rfl
    exact setParent_node hnode _

theorem adopt_run {s : State Key} {child : Tree Key} {parent : Ptr}
    (hlive : ∀ address, child.ptr = .node address → ∃ node, s.heap.cell address = some node) :
    adopt child.ptr parent s = .ok () (s.adopted child parent) := by
  by_cases hchild : child = .nil
  · subst hchild
    rfl
  · rw [adopt, if_pos (mt (Tree.ptr_eq_nil_iff child).mp hchild)]
    exact setParent_run hchild hlive

/-- The state after another child was put at the hole of a context. -/
def State.relinked (s : State Key) (frames : List (Frame Key)) (child : Ptr) : State Key :=
  { s with
    heap := match frames with
      | [] => s.heap
      | frame :: _ => s.heap.modify frame.address fun node ↦ node.setChild frame.side child
    root := match frames with
      | [] => child
      | _ :: _ => s.root }

@[simp] theorem cell_relinked_nil (s : State Key) (child : Ptr) (other : ℕ) :
    (s.relinked [] child).heap.cell other = s.heap.cell other :=
  rfl

@[simp] theorem cell_relinked_cons (s : State Key) (frame : Frame Key) (rest : List (Frame Key))
    (child : Ptr) (other : ℕ) : (s.relinked (frame :: rest) child).heap.cell other =
      if other = frame.address then
        (s.heap.cell other).map fun node ↦ node.setChild frame.side child
      else s.heap.cell other :=
  rfl

/-- Nodes that are not in the context stay as they are. -/
theorem cell_relinked_of_notMem {s : State Key} {frames : List (Frame Key)} {other : ℕ}
    (h : other ∉ contextAddresses frames) (child : Ptr) :
    (s.relinked frames child).heap.cell other = s.heap.cell other := by
  cases frames with
  | nil => rfl
  | cons frame rest =>
    rw [mem_contextAddresses_cons, not_or] at h
    rw [cell_relinked_cons, if_neg h.1]

/-- The cells after another child was put at the hole of a context. -/
theorem cell_relinked {s : State Key} {frames : List (Frame Key)} (child : Ptr) {child' : Ptr}
    {other : ℕ} {inner outer : Option (RBNode Key)}
    (hcell : s.heap.cell other = inner.or ((contextCellAt frames child other).or outer))
    (hinner : other ∈ contextAddresses frames → inner = none) :
    (s.relinked frames child').heap.cell other =
      inner.or ((contextCellAt frames child' other).or outer) := by
  cases frames with
  | nil => exact hcell
  | cons frame rest =>
    rw [cell_relinked_cons, hcell, contextCellAt_child frame rest child child']
    by_cases hframe : other = frame.address
    · rw [hinner ((mem_contextAddresses_cons _ _ _).mpr (Or.inl hframe)), if_pos hframe,
        if_pos hframe, contextCellAt, if_pos hframe]
      rfl
    · rw [if_neg hframe, if_neg hframe]

/-- The cells after a subtree was hung under another parent. -/
theorem cell_adopted_subtree {s : State Key} {child : Tree Key} (parent : Ptr) {parent' : Ptr}
    {other : ℕ} (inner : Option (RBNode Key)) {outer : Option (RBNode Key)}
    (hcell : s.heap.cell other = inner.or ((child.cellAt parent other).or outer))
    (hinner : other ∈ child.addresses → inner = none) :
    (s.adopted child parent').heap.cell other =
      inner.or ((child.cellAt parent' other).or outer) := by
  rw [cell_adopted, hcell, Tree.cellAt_parent parent parent']
  by_cases hptr : child.ptr = .node other
  · have hmem := Tree.mem_addresses_of_ptr hptr
    obtain ⟨node, hnode⟩ := Option.isSome_iff_exists.mp
      ((Tree.mem_addresses parent child other).mp hmem)
    rw [hinner hmem, hnode, if_pos hptr, if_pos hptr]
    rfl
  · rw [if_neg hptr, if_neg hptr]

/-- The node above the hole of a context has `child` on the side of the hole only. -/
def HangsOn (s : State Key) (frames : List (Frame Key)) (child : Ptr) : Prop :=
  ∀ frame rest, frames = frame :: rest → ∃ node, s.heap.cell frame.address = some node ∧
    node.child frame.side = child ∧ node.child frame.side.flip ≠ child

theorem HangsOn.congr {s s' : State Key} {frames : List (Frame Key)} {child : Ptr}
    (h : HangsOn s frames child)
    (hcell : ∀ frame rest, frames = frame :: rest →
      s'.heap.cell frame.address = s.heap.cell frame.address) : HangsOn s' frames child := by
  intro frame rest hframes
  rw [hcell frame rest hframes]
  exact h frame rest hframes

theorem relink_run {s : State Key} {x : ℕ} {y : Ptr} {node : RBNode Key}
    {frames : List (Frame Key)} (hx : s.heap.cell x = some node)
    (hparent : node.parent = hole frames)
    (hframe : HangsOn s frames (.node x)) :
    relink (.node x) y s = .ok () (s.relinked frames y) := by
  unfold relink
  rw [bind_ok (read_node hx), hparent]
  cases frames with
  | nil => rfl
  | cons frame rest =>
    obtain ⟨above, habove, hchild, hother⟩ := hframe frame rest rfl
    rw [hole_cons, if_neg (by simp), bind_ok (read_node hx), hparent, hole_cons,
      bind_ok (read_node habove)]
    cases hside : frame.side with
    | left =>
      rw [hside] at hchild
      have hleft : above.left = .node x := hchild
      rw [if_pos hleft.symm, bind_ok (read_node hx), hparent, hole_cons,
        setChild_node habove, State.relinked, hside]
      rfl
    | right =>
      rw [hside] at hother
      have hleft : above.left ≠ .node x := hother
      rw [if_neg hleft.symm, bind_ok (read_node hx), hparent, hole_cons,
        setChild_node habove, State.relinked, hside]
      rfl

/-! ### Reading a layout -/

section Layout

variable {background : State Key} {focus : Tree Key} {frames : List (Frame Key)}

/-- The cells of a tree split at a focus. -/
theorem cell_lay_plug (h : Fits background (plug focus frames)) (other : ℕ) :
    (lay background (plug focus frames)).heap.cell other =
      (focus.cellAt (hole frames) other).or
        ((contextCellAt frames focus.ptr other).or (background.heap.cell other)) := by
  rw [cell_lay, cellAt_plug h.nodup, Option.or_assoc]

/-- A state is the layout of a tree if its cells, its root and its other fields are. -/
theorem lay_ext {s : State Key} {tree : Tree Key}
    (hcell : ∀ other, s.heap.cell other = (tree.cellAt .nil other).or (background.heap.cell other))
    (hroot : s.root = tree.ptr) (hnil : s.nilNode = background.nilNode)
    (hallocated : s.allocated = background.allocated) (hfreed : s.freed = background.freed)
    (hfuse : s.fuse = background.fuse) (hsize : s.size = background.size) :
    s = lay background tree :=
  State.ext (Heap.ext_cell hcell) hnil hallocated hfreed hfuse hroot hsize

/-- The node at a focus. -/
theorem cell_focus {address : ℕ} {color : Color} {left right : Tree Key} {key : Key}
    (h : Fits background (plug (.node address color left key right) frames)) :
    (lay background (plug (.node address color left key right) frames)).heap.cell address =
      some ⟨key, color, hole frames, left.ptr, right.ptr⟩ := by
  rw [cell_lay_plug h, Tree.cellAt, if_pos rfl, Option.some_or]

/-- Reading the node at a focus. -/
theorem read_focus {address : ℕ} {color : Color} {left right : Tree Key} {key : Key}
    (h : Fits background (plug (.node address color left key right) frames)) :
    read (.node address) (lay background (plug (.node address color left key right) frames)) =
      .ok ⟨key, color, hole frames, left.ptr, right.ptr⟩
        (lay background (plug (.node address color left key right) frames)) :=
  read_node (cell_focus h)

/-- Reading the node at a focus given by its child on a side. -/
theorem cell_branch {side : Side} {address : ℕ} {color : Color} {inner outer : Tree Key}
    {key : Key} (h : Fits background (plug (.branch side address color inner key outer) frames)) :
    (lay background (plug (.branch side address color inner key outer) frames)).heap.cell address =
      some (.ofSide side key color (hole frames) inner.ptr outer.ptr) := by
  rw [cell_lay_plug h, Tree.cellAt_branch ((nodup_addresses_plug _ _).mp h.nodup).1, if_pos rfl,
    Option.some_or]

theorem read_branch {side : Side} {address : ℕ} {color : Color} {inner outer : Tree Key}
    {key : Key} (h : Fits background (plug (.branch side address color inner key outer) frames)) :
    read (.node address)
        (lay background (plug (.branch side address color inner key outer) frames)) =
      .ok (.ofSide side key color (hole frames) inner.ptr outer.ptr)
        (lay background (plug (.branch side address color inner key outer) frames)) :=
  read_node (cell_branch h)

/-- Reading the node above a focus. -/
theorem read_frame {frame : Frame Key} (h : Fits background (plug focus (frame :: frames))) :
    read (.node frame.address) (lay background (plug focus (frame :: frames))) =
      .ok (.ofSide frame.side frame.key frame.color (hole frames) focus.ptr frame.sibling.ptr)
        (lay background (plug focus (frame :: frames))) :=
  read_branch h

/-- Reading the root of a focus, which may be the sentinel, shows its colour. -/
theorem read_color (h : Fits background (plug focus frames))
    (hnil : background.nilNode.color = .black) :
    ∃ node, read focus.ptr (lay background (plug focus frames)) =
      .ok node (lay background (plug focus frames)) ∧ node.color = focus.color := by
  cases focus with
  | nil => exact ⟨_, rfl, hnil⟩
  | node address color left key right => exact ⟨_, read_focus h, rfl⟩

/-- The root of the whole tree does not depend on a focus below it. -/
theorem ptr_plug_cons (focus focus' : Tree Key) (frame : Frame Key) (rest : List (Frame Key)) :
    (plug focus (frame :: rest)).ptr = (plug focus' (frame :: rest)).ptr := by
  induction rest generalizing frame focus focus' with
  | nil => simp [Frame.plug]
  | cons above rest ih => exact ih (frame.plug focus) (frame.plug focus') above

/-- The root does not depend on what is below a context. -/
theorem root_lay_plug (hframes : frames ≠ []) (focus focus' : Tree Key) :
    (lay background (plug focus frames)).root = (plug focus' frames).ptr := by
  cases frames with
  | nil => exact absurd rfl hframes
  | cons frame rest => exact ptr_plug_cons _ _ frame rest

/-- The root of a tree around a focus is one of the nodes above the focus. -/
theorem mem_contextAddresses_root (tree : Tree Key) (frame : Frame Key) (rest : List (Frame Key))
    (address : ℕ) (h : (plug tree (frame :: rest)).ptr = .node address) :
    address ∈ contextAddresses (frame :: rest) := by
  induction rest generalizing frame tree with
  | nil =>
    rw [plug_cons, plug_nil, Frame.plug, Tree.ptr_branch, Ptr.node.injEq] at h
    exact (mem_contextAddresses_cons _ _ _).mpr (Or.inl h.symm)
  | cons above rest ih =>
    exact (mem_contextAddresses_cons _ _ _).mpr (Or.inr (Or.inr (ih (frame.plug tree) above h)))

/-- The node above a focus has the focus on one side only. -/
theorem hangsOn_focus {x : ℕ} (h : Fits background (plug focus frames))
    (hx : focus.ptr = .node x) :
    HangsOn (lay background (plug focus frames)) frames (.node x) := by
  rintro frame rest rfl
  have hmem := Tree.mem_addresses_of_ptr hx
  have hdisjoint := ((nodup_addresses_plug _ _).mp h.nodup).2.2
  have hfocus : frame.address ∉ focus.addresses := fun hmem' ↦
    hdisjoint _ hmem' ((mem_contextAddresses_cons _ _ _).mpr (Or.inl rfl))
  have hsibling : frame.sibling.ptr ≠ .node x := fun hptr ↦
    hdisjoint x hmem ((mem_contextAddresses_cons _ _ _).mpr
      (Or.inr (Or.inl (Tree.mem_addresses_of_ptr hptr))))
  refine ⟨_, by rw [cell_lay_plug h, Tree.cellAt_eq_none hfocus, Option.none_or, contextCellAt,
    if_pos rfl, Option.some_or], ?_, ?_⟩
  · rw [RBNode.ofSide_child, hx]
  · rw [RBNode.ofSide_child_flip]
    exact hsibling

/-- A focus and its sibling are different subtrees, unless both are empty. -/
theorem ptr_ne_sibling {tree : Tree Key} {frame : Frame Key} {rest : List (Frame Key)}
    (h : Fits background (plug tree (frame :: rest)))
    (hne : tree ≠ .nil ∨ frame.sibling ≠ .nil) : tree.ptr ≠ frame.sibling.ptr := by
  intro hptr
  have hdisjoint := ((nodup_addresses_plug _ _).mp h.nodup).2.2
  cases tree with
  | nil =>
    have hnil := (Tree.ptr_eq_nil_iff frame.sibling).mp hptr.symm
    exact hne.elim (fun h ↦ h rfl) (fun h ↦ h hnil)
  | node address color left key right =>
    exact hdisjoint address (by simp) ((mem_contextAddresses_cons _ _ _).mpr
      (Or.inr (Or.inl (Tree.mem_addresses_of_ptr hptr.symm))))

/-- A focus below the root is not the root. -/
theorem ptr_ne_root {tree : Tree Key} {frame : Frame Key} {rest : List (Frame Key)}
    (h : Fits background (plug tree (frame :: rest))) :
    tree.ptr ≠ (lay background (plug tree (frame :: rest))).root := by
  intro hptr
  rw [root_lay] at hptr
  have hne := plug_ne_nil (Tree.branch_ne_nil frame.side frame.address frame.color tree frame.key
    frame.sibling) rest
  have hroot := mem_contextAddresses_root tree frame rest
  cases tree with
  | nil => exact hne ((Tree.ptr_eq_nil_iff _).mp hptr.symm)
  | node address color left key right =>
    exact ((nodup_addresses_plug _ _).mp h.nodup).2.2 address (by simp) (hroot address hptr.symm)

/-- A subtree of the focus has a live root. -/
theorem live_of_mem {address : ℕ} (h : address ∈ focus.addresses)
    (hfits : Fits background (plug focus frames)) :
    ∃ node, (lay background (plug focus frames)).heap.cell address = some node := by
  rw [Tree.mem_addresses (hole frames)] at h
  obtain ⟨node, hnode⟩ := Option.isSome_iff_exists.mp h
  exact ⟨node, by rw [cell_lay_plug hfits, hnode, Option.some_or]⟩

/-- A layout fits after any rearrangement that keeps the addresses. -/
theorem Fits.congr {tree tree' : Tree Key} (h : Fits background tree)
    (haddresses : tree'.addresses = tree.addresses) : Fits background tree' :=
  ⟨haddresses ▸ h.nodup, haddresses ▸ h.free⟩

/-- A tree has no more nodes than there are live ones. -/
theorem size_le_live {tree : Tree Key} (h : Fits background tree) :
    tree.size ≤ (lay background tree).heap.live.card := by
  rw [live_lay, ← Tree.length_addresses, ← List.toFinset_card_of_nodup h.nodup]
  exact Finset.card_le_card Finset.subset_union_right

/-- A context has no more frames than the tree has nodes. -/
theorem length_frames_le_size (tree : Tree Key) (frames : List (Frame Key)) :
    tree.size + frames.length ≤ (plug tree frames).size := by
  induction frames generalizing tree with
  | nil => simp
  | cons frame rest ih =>
    have hframe : tree.size + 1 ≤ (frame.plug tree).size := by
      cases hside : frame.side <;> simp only [Frame.plug, hside, Tree.branch, Tree.size] <;> omega
    have hrest := ih (frame.plug tree)
    rw [plug_cons, List.length_cons]
    omega

theorem length_frames_le_live {tree : Tree Key} (h : Fits background (plug tree frames)) :
    frames.length ≤ (lay background (plug tree frames)).heap.live.card := by
  have hframes := length_frames_le_size tree frames
  have hlive := size_le_live h
  omega

end Layout

end StudStuff.RedBlackTree
