import StudStuff.RedBlackTree.InsertFixup
import StudStuff.RedBlackTree.Search

/-!
# `Insert` on laid out trees

The search loop of `Insert` either meets an equivalent key or ends at an empty place that cuts the
listing between the smaller and the greater keys (`insertDescend_lay`). The second comparison of
`Insert` then picks the side the loop came from, and `attach_lay` is the state with the new red
node in its place, which `InsertFixup` repairs. `insert_present` and `insert_absent` are the two
outcomes of the whole function in a memory that never throws.
-/

set_option autoImplicit false
set_option relaxedAutoImplicit false

namespace StudStuff.RedBlackTree

open Lib

variable {Key : Type} {params : Params Key}

/-- A place in a tree that cuts the listing at a key: what is listed before it is below the key and
what is listed after it is above. -/
structure CutAt (comp : Key → Key → Bool) (val : Key) (frames : List (Frame Key)) : Prop where
  smaller : ∀ entry ∈ before frames, comp entry.2 val = true
  greater : ∀ entry ∈ after frames, comp val entry.2 = true

/-- No key around the cut is equivalent. -/
theorem CutAt.absent {comp : Key → Key → Bool} {val : Key} {frames : List (Frame Key)}
    (h : CutAt comp val frames) :
    ∀ entry ∈ (plug .nil frames).inorder, equivalent comp val entry.2 = false := by
  intro entry hmem
  rw [inorder_plug, Tree.inorder_nil, List.nil_append, List.mem_append] at hmem
  rcases hmem with hmem | hmem
  · simp [equivalent, h.smaller entry hmem]
  · simp [equivalent, h.greater entry hmem]

/-- A memory without a fuse has none after some operations either. -/
theorem State.unfused {s : State Key} (h : s.fuse = none) (count : ℕ) :
    s.fuse = Option.map (· + count) none :=
  h

/-- A memory that never throws stays one. -/
theorem State.burnt {s : State Key} (h : s.fuse = none) : { s with fuse := none } = s := by
  rw [← h]

/-! ### The search -/

section Step

variable {s : State Key} {bound address : ℕ} {node : RBNode Key} {val : Key} {fuse : Option ℕ}

/-- The copy of the key of a node and the first comparison. -/
theorem insertDescend_step (hcell : s.heap.cell address = some node)
    (hfuse : s.fuse = fuse.map (· + 2)) (val : Key) (parent : Ptr) :
    insertDescend params val (bound + 1) (.node address) parent s =
      (do
        if params.comp val node.data then
          insertDescend params val bound (← read (.node address)).left (.node address)
        else
          mayThrow
          if params.comp node.data val then
            insertDescend params val bound (← read (.node address)).right (.node address)
          else
            return none : TreeM Key (Option Ptr)) { s with fuse := fuse } := by
  have hcopy : s.fuse = (fuse.map (· + 1)).map (· + 1) := by
    rw [hfuse, Option.map_map]
    rfl
  rw [insertDescend, if_neg (by simp)]
  refine (bind_ok (mayThrow_map hcopy)).trans ?_
  refine (bind_ok (read_node (s := { s with fuse := fuse.map (· + 1) }) hcell)).trans ?_
  exact bind_ok (mayThrow_map (show _ = fuse.map (· + 1) from rfl))

theorem insertDescend_left (hcell : s.heap.cell address = some node)
    (hfuse : s.fuse = fuse.map (· + 2)) (hlt : params.comp val node.data = true) (parent : Ptr) :
    insertDescend params val (bound + 1) (.node address) parent s =
      insertDescend params val bound node.left (.node address) { s with fuse := fuse } := by
  rw [insertDescend_step hcell hfuse, if_pos hlt]
  exact bind_ok (read_node (s := { s with fuse := fuse }) hcell)

/-- The second comparison. -/
theorem insertDescend_compare (hcell : s.heap.cell address = some node)
    (hfuse : s.fuse = fuse.map (· + 3)) (hlt : ¬params.comp val node.data = true) (parent : Ptr) :
    insertDescend params val (bound + 1) (.node address) parent s =
      (do
        if params.comp node.data val then
          insertDescend params val bound (← read (.node address)).right (.node address)
        else
          return none : TreeM Key (Option Ptr)) { s with fuse := fuse } := by
  have hstep : s.fuse = (fuse.map (· + 1)).map (· + 2) := by
    rw [hfuse, Option.map_map]
    rfl
  rw [insertDescend_step hcell hstep, if_neg hlt]
  exact bind_ok (mayThrow_map (show _ = fuse.map (· + 1) from rfl))

theorem insertDescend_right (hcell : s.heap.cell address = some node)
    (hfuse : s.fuse = fuse.map (· + 3)) (hlt : ¬params.comp val node.data = true)
    (hgt : params.comp node.data val = true) (parent : Ptr) :
    insertDescend params val (bound + 1) (.node address) parent s =
      insertDescend params val bound node.right (.node address) { s with fuse := fuse } := by
  rw [insertDescend_compare hcell hfuse hlt, if_pos hgt]
  exact bind_ok (read_node (s := { s with fuse := fuse }) hcell)

theorem insertDescend_here (hcell : s.heap.cell address = some node)
    (hfuse : s.fuse = fuse.map (· + 3)) (hlt : ¬params.comp val node.data = true)
    (hgt : ¬params.comp node.data val = true) (parent : Ptr) :
    insertDescend params val (bound + 1) (.node address) parent s =
      .ok none { s with fuse := fuse } := by
  rw [insertDescend_compare hcell hfuse hlt, if_neg hgt]
  rfl

end Step

/-- The search loop of `Insert` below a focus returns a given result. -/
def Descends (params : Params Key) (val : Key) (tree : Tree Key) (frames : List (Frame Key))
    (result : Option Ptr) : Prop :=
  ∀ (background : State Key) (bound : ℕ), Fits background (plug tree frames) →
    background.fuse = none → tree.size < bound →
      insertDescend params val bound tree.ptr (hole frames) (lay background (plug tree frames)) =
        .ok result (lay background (plug tree frames))

section Steps

variable {val : Key} {address : ℕ} {color : Color} {left right : Tree Key} {key : Key}
  {frames : List (Frame Key)} {result : Option Ptr}

theorem Descends.goLeft
    (h : Descends params val left (⟨.left, address, color, key, right⟩ :: frames) result)
    (hlt : params.comp val key = true) :
    Descends params val (.node address color left key right) frames result := by
  intro background bound hfits hfuse hbound
  obtain ⟨bound, rfl⟩ : ∃ count, bound = count + 1 := ⟨bound - 1, by omega⟩
  rw [Tree.size] at hbound
  refine (insertDescend_left (cell_focus hfits)
    (State.unfused (s := lay background _) hfuse 2) hlt _).trans ?_
  rw [State.burnt (s := lay background _) hfuse]
  exact h background bound hfits hfuse (by omega)

theorem Descends.goRight
    (h : Descends params val right (⟨.right, address, color, key, left⟩ :: frames) result)
    (hlt : ¬params.comp val key = true) (hgt : params.comp key val = true) :
    Descends params val (.node address color left key right) frames result := by
  intro background bound hfits hfuse hbound
  obtain ⟨bound, rfl⟩ : ∃ count, bound = count + 1 := ⟨bound - 1, by omega⟩
  rw [Tree.size] at hbound
  refine (insertDescend_right (cell_focus hfits)
    (State.unfused (s := lay background _) hfuse 3) hlt hgt _).trans ?_
  rw [State.burnt (s := lay background _) hfuse]
  exact h background bound hfits hfuse (by omega)

theorem Descends.here (hlt : ¬params.comp val key = true) (hgt : ¬params.comp key val = true) :
    Descends params val (.node address color left key right) frames none := by
  intro background bound hfits hfuse hbound
  obtain ⟨bound, rfl⟩ : ∃ count, bound = count + 1 := ⟨bound - 1, by omega⟩
  refine (insertDescend_here (cell_focus hfits)
    (State.unfused (s := lay background _) hfuse 3) hlt hgt _).trans ?_
  rw [State.burnt (s := lay background _) hfuse]

end Steps

section Descent

variable [IsStrictWeakOrder Key fun first second ↦ params.comp first second = true] {val : Key}

/-- The cut below the left child of a focus. -/
theorem CutAt.left {address : ℕ} {color : Color} {left right : Tree Key} {key : Key}
    {frames : List (Frame Key)} (h : CutAt params.comp val frames)
    (hsorted : (Tree.node address color left key right).Sorted params.comp)
    (hlt : params.comp val key = true) :
    CutAt params.comp val (⟨.left, address, color, key, right⟩ :: frames) where
  smaller := h.smaller
  greater := by
    simp only [after, List.mem_cons, List.mem_append]
    rintro entry (rfl | hmem | hmem)
    · exact hlt
    · exact weakOrder_trans hlt (hsorted.of_node.2.2.2 entry hmem)
    · exact h.greater entry hmem

/-- The cut below the right child of a focus. -/
theorem CutAt.right {address : ℕ} {color : Color} {left right : Tree Key} {key : Key}
    {frames : List (Frame Key)} (h : CutAt params.comp val frames)
    (hsorted : (Tree.node address color left key right).Sorted params.comp)
    (hgt : params.comp key val = true) :
    CutAt params.comp val (⟨.right, address, color, key, left⟩ :: frames) where
  smaller := by
    simp only [before, List.mem_append, List.mem_singleton]
    rintro entry (hmem | hmem | rfl)
    · exact h.smaller entry hmem
    · exact weakOrder_trans (hsorted.of_node.2.2.1 entry hmem) hgt
    · exact hgt
  greater := h.greater

/-- The search loop of `Insert` meets an equivalent key or ends at an empty place that cuts the
listing at the key. -/
theorem insertDescend_lay {tree : Tree Key} {frames : List (Frame Key)}
    (hsorted : tree.Sorted params.comp)
    (hcut : CutAt params.comp val frames) :
    (∃ entry ∈ tree.inorder, equivalent params.comp val entry.2 = true ∧
      Descends params val tree frames none) ∨
    ∃ frames', plug .nil frames' = plug tree frames ∧ CutAt params.comp val frames' ∧
      Descends params val tree frames (some (hole frames')) := by
  induction tree generalizing frames with
  | nil =>
    refine Or.inr ⟨frames, rfl, hcut, fun background bound hfits hfuse hbound ↦ ?_⟩
    obtain ⟨bound, rfl⟩ : ∃ count, bound = count + 1 := ⟨bound - 1, by omega⟩
    rw [insertDescend, Tree.ptr_nil, if_pos rfl, pure_apply]
  | node address color left key right ihl ihr =>
    obtain ⟨hl, hr, -, -⟩ := hsorted.of_node
    by_cases hlt : params.comp val key = true
    · rcases ihl hl (hcut.left hsorted hlt) with ⟨entry, hmem, heq, h⟩ | ⟨frames', hplug, hcut', h⟩
      · exact Or.inl ⟨entry, by simp [hmem], heq, h.goLeft hlt⟩
      · exact Or.inr ⟨frames', hplug, hcut', h.goLeft hlt⟩
    by_cases hgt : params.comp key val = true
    · rcases ihr hr (hcut.right hsorted hgt) with ⟨entry, hmem, heq, h⟩ | ⟨frames', hplug, hcut', h⟩
      · exact Or.inl ⟨entry, by simp [hmem], heq, h.goRight hlt hgt⟩
      · exact Or.inr ⟨frames', hplug, hcut', h.goRight hlt hgt⟩
    · exact Or.inl ⟨(address, key), by simp, by simp [equivalent, hlt, hgt], .here hlt hgt⟩

end Descent

/-! ### The new node -/

/-- The background after an allocation. -/
def State.grown (background : State Key) : State Key :=
  { background with allocated := background.allocated + 1, size := background.size + 1 }

/-- The node that `new` returns. -/
def State.nextAddress (s : State Key) (params : Params Key) : ℕ :=
  params.allocator.pick s.allocated s.heap.live

/-- The next address is not in use. -/
theorem cell_nextAddress (s : State Key) (params : Params Key) :
    s.heap.cell (s.nextAddress params) = none :=
  (s.heap.cell_eq_none_iff _).mpr (params.allocator.fresh _ _)

/-- A new node takes two operations that may throw. -/
theorem newNode_made {s : State Key} {fuse : Option ℕ} (h : s.fuse = fuse.map (· + 2)) (key : Key) :
    newNode params key s = .ok (.node (s.nextAddress params))
      { s with
        heap := s.heap.store (s.nextAddress params) (RBNode.new key)
        allocated := s.allocated + 1
        fuse := fuse } := by
  have hfirst : s.fuse = (fuse.map (· + 1)).map (· + 1) := by
    rw [h, Option.map_map]
    rfl
  unfold newNode
  refine (bind_ok (mayThrow_map hfirst)).trans ?_
  exact bind_ok (mayThrow_map (show _ = fuse.map (· + 1) from rfl))

/-- The state with a new node that nothing points to yet. -/
def State.prepared (s : State Key) (address : ℕ) (node : RBNode Key) : State Key :=
  { s with
    heap := s.heap.store address node
    allocated := s.allocated + 1
    size := s.size + 1 }

/-- The statements of `Insert` that make the new node ready. -/
theorem prepareNode_run {α : Type} {s : State Key} {fuse : Option ℕ}
    (hfuse : s.fuse = fuse.map (· + 2)) (val : Key) (parent : Ptr) (next : Ptr → TreeM Key α) :
    (do
      let node ← newNode params val
      setChild node .right .nil
      setChild node .left .nil
      setParent node parent
      setSize ((← get).size + 1)
      next node) s =
      next (.node (s.nextAddress params))
        { s.prepared (s.nextAddress params) ⟨val, .red, parent, .nil, .nil⟩ with
          fuse := fuse } := by
  refine (bind_ok (newNode_made hfuse val)).trans ?_
  rw [bind_ok (setChild_node (show _ = some (RBNode.new val) by simp) _ _),
    bind_ok (setChild_node (show _ = some (RBNode.mk val .red .null .null .nil) by simp; rfl) _ _),
    bind_ok (setParent_node (show _ = some (RBNode.mk val .red .null .nil .nil) by simp; rfl) _),
    bind_ok (get_apply _), bind_ok (setSize_apply _ _)]
  refine congrArg (next _) (State.ext (Heap.ext_cell fun other ↦ ?_) rfl rfl rfl rfl rfl rfl)
  by_cases hother : other = s.nextAddress params
  · simp [State.assign, State.prepared, hother, RBNode.new, RBNode.setChild]
  · simp [State.assign, State.prepared, hother]

section Leaf

variable {background : State Key} {val : Key} {frame : Frame Key} {rest : List (Frame Key)}
  {address : ℕ}

/-- A new node fits in the place of an empty subtree. -/
theorem Fits.leaf {frames : List (Frame Key)} (hfits : Fits background (plug .nil frames))
    (hfresh : (lay background (plug .nil frames)).heap.cell address = none) (val : Key) :
    Fits background.grown (plug (.node address .red .nil val .nil) frames) := by
  rw [cell_lay, Option.or_eq_none_iff] at hfresh
  have hnotMem : address ∉ (plug .nil frames).addresses := fun hmem ↦ by
    rw [Tree.mem_addresses .nil, hfresh.1] at hmem
    cases hmem
  have hnodup := hfits.nodup
  constructor
  · rw [nodup_addresses_plug] at hnodup ⊢
    rw [mem_addresses_plug] at hnotMem
    simp only [Tree.addresses_node, Tree.addresses_nil] at hnotMem ⊢
    grind
  · intro other hmem
    rw [mem_addresses_plug] at hmem
    rcases hmem with hmem | hmem
    · obtain rfl : other = address := by simpa using hmem
      exact hfresh.2
    · exact hfits.free other ((mem_addresses_plug _ _ _).mpr (Or.inr hmem))

/-- The cell of the node that the new node is hung under. -/
theorem cell_above_leaf (hfits : Fits background (plug .nil (frame :: rest))) :
    (lay background (plug .nil (frame :: rest))).heap.cell frame.address =
      some (.ofSide frame.side frame.key frame.color (hole rest) .nil frame.sibling.ptr) := by
  rw [cell_lay_plug hfits, Tree.cellAt_nil, Option.none_or, contextCellAt, if_pos rfl]
  rfl

/-- The tree that is laid out once the new node is linked. -/
theorem linked_leaf (hfits : Fits background (plug .nil (frame :: rest)))
    (hfresh : (lay background (plug .nil (frame :: rest))).heap.cell address = none)
    (hne : frame.address ≠ address) (val : Key) :
    ((lay background (plug .nil (frame :: rest))).prepared address
        ⟨val, .red, .node frame.address, .nil, .nil⟩).assign frame.address
          (fun node ↦ node.setChild frame.side (.node address)) =
      lay background.grown (plug (.node address .red .nil val .nil) (frame :: rest)) := by
  refine lay_ext (fun other ↦ ?_) (ptr_plug_cons _ _ frame rest) rfl rfl rfl rfl rfl
  rw [cellAt_plug (hfits.leaf hfresh val).nodup, Option.or_assoc, Tree.cellAt, Tree.cellAt_nil,
    Option.none_or, hole_cons, Tree.ptr_node, cell_assign]
  simp only [State.prepared, Heap.cell_store]
  by_cases hother : other = address
  · rw [if_pos hother, if_neg (hother ▸ hne.symm), if_pos hother, Option.some_or, Tree.ptr_nil]
  · rw [if_neg hother, if_neg hother, Option.none_or, contextCellAt_child frame rest .nil,
      cell_lay_plug hfits, Tree.cellAt_nil, Option.none_or]
    by_cases hframe : other = frame.address
    · rw [if_pos hframe, if_pos hframe, contextCellAt, if_pos hframe, contextCellAt, if_pos hframe]
      rfl
    · rw [if_neg hframe, if_neg hframe]
      rfl

/-- The comparison of the source picks the side on which the new node belongs. -/
theorem linkLeaf_eq [IsStrictWeakOrder Key fun first second ↦ params.comp first second = true]
    (hcut : CutAt params.comp val (frame :: rest)) {α : Type} (child : Ptr) (next : TreeM Key α) :
    (if params.comp val frame.key = true then
        setChild (.node frame.address) .left child >>= fun _ ↦ next
      else setChild (.node frame.address) .right child >>= fun _ ↦ next) =
      setChild (.node frame.address) frame.side child >>= fun _ ↦ next := by
  cases hside : frame.side with
  | left => rw [if_pos (hcut.greater (frame.address, frame.key) (by simp [after, hside]))]
  | right =>
    have hlt := hcut.smaller (frame.address, frame.key) (by simp [before, hside])
    rw [if_neg (by rw [weakOrder_asymm hlt]; decide)]

/-- The rest of `Insert` once the place is found: the new red node is hung there. -/
theorem insertUnder_lay
    [IsStrictWeakOrder Key fun first second ↦ params.comp first second = true]
    (hfits : Fits background (plug .nil (frame :: rest))) {fuse : Option ℕ}
    (hfuse : background.fuse = fuse.map (· + 3)) (hcut : CutAt params.comp val (frame :: rest))
    (haddress : (lay background (plug .nil (frame :: rest))).nextAddress params = address) :
    Fits background.grown (plug (.node address .red .nil val .nil) (frame :: rest)) ∧
      insertUnder params val (.node frame.address) (lay background (plug .nil (frame :: rest))) =
        (do insertFixup (.node address); return ⟨.node address, .nil⟩ : TreeM Key Iterator)
          (lay { background.grown with fuse := fuse }
            (plug (.node address .red .nil val .nil) (frame :: rest))) := by
  have hfresh := cell_nextAddress (lay background (plug .nil (frame :: rest))) params
  rw [haddress] at hfresh
  have hparent := cell_above_leaf hfits
  have hne : frame.address ≠ address := by
    intro h
    rw [← h, hparent] at hfresh
    cases hfresh
  refine ⟨hfits.leaf hfresh val, ?_⟩
  have hcreate : background.fuse = (fuse.map (· + 1)).map (· + 2) := by
    rw [hfuse, Option.map_map]
    rfl
  set prepared : State Key := (lay { background with fuse := fuse }
    (plug .nil (frame :: rest))).prepared address
      ⟨val, .red, .node frame.address, .nil, .nil⟩ with hprepared
  have hnode : prepared.heap.cell address =
      some ⟨val, .red, .node frame.address, .nil, .nil⟩ := by
    simp [hprepared, State.prepared]
  have hframe : prepared.heap.cell frame.address =
      some (.ofSide frame.side frame.key frame.color (hole rest) .nil frame.sibling.ptr) := by
    simp only [hprepared, State.prepared, Heap.cell_store]
    rw [if_neg hne]
    exact hparent
  have hcompare : mayThrow { prepared with fuse := fuse.map (· + 1) } = .ok () prepared :=
    mayThrow_map rfl
  unfold insertUnder
  refine (prepareNode_run (s := lay background (plug .nil (frame :: rest))) hcreate val
    (.node frame.address) _).trans ?_
  rw [haddress]
  refine (bind_ok hcompare).trans ?_
  rw [bind_ok (read_node hnode), bind_ok (read_node hframe), RBNode.ofSide_data]
  refine (congrFun (linkLeaf_eq hcut _ _) prepared).trans ?_
  refine (bind_ok (setChild_node hframe _ _)).trans ?_
  have hfits' : Fits { background with fuse := fuse } (plug .nil (frame :: rest)) :=
    ⟨hfits.nodup, hfits.free⟩
  rw [hprepared]
  exact congrArg _ (linked_leaf hfits' hfresh hne val)

/-- The new node is hung in its place and the tree is repaired. -/
theorem insertUnder_run
    [IsStrictWeakOrder Key fun first second ↦ params.comp first second = true]
    {height : ℕ} (hbalanced : Balanced (plug .nil (frame :: rest)) .black height)
    (hcut : CutAt params.comp val (frame :: rest)) (address : ℕ) :
    ∃ tree' height', Balanced tree' .black height' ∧
      tree'.inorder = before (frame :: rest) ++ (address, val) :: after (frame :: rest) ∧
      ∀ (background : State Key) (fuse : Option ℕ),
        Fits background (plug .nil (frame :: rest)) → background.fuse = fuse.map (· + 3) →
        background.nilNode.color = .black →
        (lay background (plug .nil (frame :: rest))).nextAddress params = address →
          insertUnder params val (.node frame.address)
              (lay background (plug .nil (frame :: rest))) =
            .ok ⟨.node address, .nil⟩ (lay { background.grown with fuse := fuse } tree') := by
  obtain ⟨height', hempty, haccepts⟩ := hbalanced.split
  cases hempty
  obtain ⟨tree', height'', htree, hlist, hfixup⟩ := insertFixup_lay
    (show Balanced (.node address .red .nil val .nil) .red 0 from .red .nil .nil) haccepts
  refine ⟨tree', height'', htree, ?_, ?_⟩
  · rw [hlist, inorder_plug]
    rfl
  · intro background fuse hfits hfuse hnil haddress
    obtain ⟨hfits', hunder⟩ := insertUnder_lay hfits hfuse hcut haddress
    refine hunder.trans ?_
    exact bind_ok (hfixup { background.grown with fuse := fuse } ⟨hfits'.nodup, hfits'.free⟩ hnil)

end Leaf

/-! ### The whole function -/

/-- `Insert` into a tree with a root. -/
theorem insert_search {s : State Key} (hroot : s.root ≠ .nil) (val : Key) :
    insert params val s =
      (do
        match ← insertDescend params val (s.heap.live.card + 2) s.root .nil with
        | none => return endIterator
        | some parent => insertUnder params val parent : TreeM Key Iterator) s := by
  have hempty : empty s = .ok false s := by
    unfold empty
    refine (bind_ok (get_apply _)).trans ?_
    rw [pure_apply, decide_eq_false hroot]
  unfold insert
  refine (bind_ok hempty).trans ?_
  rw [if_neg (by decide)]
  exact (bind_ok (fuel_apply _)).trans (bind_ok (get_apply _))

/-- `Insert` into a tree with a root, once it is known where its search ends. -/
theorem insert_descends {background : State Key} {tree : Tree Key} {val : Key}
    {result : Option Ptr} (hne : tree ≠ .nil) (hfits : Fits background tree)
    (hfuse : background.fuse = none) : Descends params val tree [] result →
      insert params val (lay background tree) =
        (match result with
          | none => return endIterator
          | some parent => insertUnder params val parent : TreeM Key Iterator)
            (lay background tree) := by
  intro hrun
  have hbound : tree.size < (lay background tree).heap.live.card + 2 := by
    have hlive := size_le_live hfits
    omega
  have hroot : (lay background tree).root ≠ .nil := by
    rw [root_lay]
    exact mt (Tree.ptr_eq_nil_iff tree).mp hne
  refine (insert_search hroot val).trans ?_
  exact bind_ok (hrun background _ hfits hfuse hbound)

/-- `Insert` of a key that has an equivalent one in the tree returns `end()` and changes
nothing. -/
theorem insert_present [IsStrictWeakOrder Key fun first second ↦ params.comp first second = true]
    {background : State Key} {tree : Tree Key} {val : Key} {entry : ℕ × Key}
    (hsorted : tree.Sorted params.comp) (hfits : Fits background tree)
    (hfuse : background.fuse = none) (hmem : entry ∈ tree.inorder)
    (hentry : equivalent params.comp val entry.2 = true) :
    insert params val (lay background tree) = .ok endIterator (lay background tree) := by
  have hne : tree ≠ .nil := by
    rintro rfl
    cases hmem
  rcases insertDescend_lay hsorted
    (show CutAt params.comp val [] from ⟨by simp [before], by simp [after]⟩) with
    ⟨-, -, -, hrun⟩ | ⟨frames', hplug, hcut, -⟩
  · exact insert_descends hne hfits hfuse hrun
  · rw [plug_nil] at hplug
    subst hplug
    rw [hcut.absent entry hmem] at hentry
    cases hentry

/-- `Insert` into an empty tree. -/
theorem insert_empty {background : State Key} {val : Key} {address : ℕ} (fuse : Option ℕ)
    (hfuse : background.fuse = fuse.map (· + 2))
    (haddress : (lay background (.nil : Tree Key)).nextAddress params = address) :
    insert params val (lay background .nil) =
      .ok ⟨.node address, .nil⟩
        (lay { background.grown with fuse := fuse } (.node address .black .nil val .nil)) := by
  have hempty : empty (lay background (.nil : Tree Key)) = .ok true (lay background .nil) := rfl
  have hnew : newNode params val (lay background (.nil : Tree Key)) = _ :=
    newNode_made (s := lay background .nil) hfuse val
  rw [haddress] at hnew
  unfold insert
  refine (bind_ok hempty).trans ?_
  rw [if_pos rfl]
  refine (bind_ok hnew).trans ?_
  refine (bind_ok (setRoot_apply _ _)).trans ?_
  refine (bind_ok (get_apply _)).trans ?_
  refine (bind_ok (setSize_apply _ _)).trans ?_
  refine (bind_ok (get_apply _)).trans ?_
  refine (bind_ok (setColor_node (show _ = some (RBNode.new val) by simp) _)).trans ?_
  refine (bind_ok (get_apply _)).trans ?_
  refine (bind_ok (setChild_node (show _ = some (RBNode.mk val .black .null .null .null) by
    simp [RBNode.new]) _ _)).trans ?_
  refine (bind_ok (get_apply _)).trans ?_
  refine (bind_ok (setChild_node (show _ = some (RBNode.mk val .black .null .null .nil) by
    simp [RBNode.new, RBNode.setChild]) _ _)).trans ?_
  refine (bind_ok (get_apply _)).trans ?_
  refine (bind_ok (setParent_node (show _ = some (RBNode.mk val .black .null .nil .nil) by
    simp [RBNode.new, RBNode.setChild]) _)).trans ?_
  refine (bind_ok (get_apply _)).trans ?_
  rw [pure_apply]
  refine congrArg (EStateM.Result.ok _) (lay_ext (fun other ↦ ?_) rfl rfl rfl rfl rfl rfl)
  by_cases hother : other = address
  · simp [State.assign, Tree.cellAt, hother, RBNode.new, RBNode.setChild]
  · simp [State.assign, Tree.cellAt, hother]
    rfl

/-- `Insert` of a key without an equivalent one puts a node for it in its place of the listing. -/
theorem insert_absent [IsStrictWeakOrder Key fun first second ↦ params.comp first second = true]
    {tree : Tree Key} {height : ℕ} {val : Key} (hsorted : tree.Sorted params.comp)
    (hbalanced : Balanced tree .black height)
    (habsent : ∀ entry ∈ tree.inorder, equivalent params.comp val entry.2 = false) (address : ℕ) :
    ∃ tree' height' smaller greater, Balanced tree' .black height' ∧
      tree.inorder = smaller ++ greater ∧ tree'.inorder = smaller ++ (address, val) :: greater ∧
      (∀ entry ∈ smaller, params.comp entry.2 val = true) ∧
      (∀ entry ∈ greater, params.comp val entry.2 = true) ∧
      ∀ background : State Key, Fits background tree → background.fuse = none →
        background.nilNode.color = .black → (lay background tree).nextAddress params = address →
          insert params val (lay background tree) =
            .ok ⟨.node address, .nil⟩ (lay background.grown tree') := by
  have hcut₀ : CutAt params.comp val ([] : List (Frame Key)) :=
    ⟨by simp [before], by simp [after]⟩
  by_cases hne : tree = .nil
  · subst hne
    refine ⟨.node address .black .nil val .nil, 1, [], [], .black .nil .nil, rfl, rfl, by simp,
      by simp, ?_⟩
    intro background hfits hfuse hnil haddress
    refine (insert_empty none hfuse haddress).trans ?_
    rw [State.burnt (s := background.grown) hfuse]
  rcases insertDescend_lay hsorted hcut₀ with
    ⟨entry, hmem, hentry, -⟩ | ⟨frames, hplug, hcut, hrun⟩
  · rw [habsent entry hmem] at hentry
    cases hentry
  rw [plug_nil] at hplug
  subst hplug
  cases frames with
  | nil => exact absurd rfl hne
  | cons frame rest =>
    obtain ⟨tree', height', htree, hlist, hunder⟩ := insertUnder_run hbalanced hcut address
    refine ⟨tree', height', before (frame :: rest), after (frame :: rest), htree, ?_, hlist,
      hcut.smaller, hcut.greater, ?_⟩
    · rw [inorder_plug, Tree.inorder_nil, List.nil_append]
    · intro background hfits hfuse hnil haddress
      refine (insert_descends hne hfits hfuse hrun).trans ?_
      refine (hunder background none hfits hfuse hnil haddress).trans ?_
      rw [State.burnt (s := background.grown) hfuse]

end StudStuff.RedBlackTree
