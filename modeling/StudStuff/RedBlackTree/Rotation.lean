import StudStuff.RedBlackTree.Execution

/-!
# Rotations, transplantation and recolouring of laid out trees

The pointer surgery of the tree as equations between layouts. `setColor_lay` recolours the root
of a focus, `rotate_lay` is the rotation of a focus whose child on the far side is a node, and
both leave the listing of the tree and everything outside its addresses alone.
-/

set_option autoImplicit false
set_option relaxedAutoImplicit false

namespace StudStuff.RedBlackTree

open Lib

variable {Key : Type} {background : State Key} {frames : List (Frame Key)}

/-- Recolouring the root of a focus keeps the listing of the tree. -/
theorem inorder_plug_congr {focus focus' : Tree Key} (h : focus'.inorder = focus.inorder) :
    (plug focus' frames).inorder = (plug focus frames).inorder := by
  rw [inorder_plug, inorder_plug, h]

/-- Recolouring the node above a focus, or its sibling, keeps the listing. -/
theorem inorder_plug_frame {focus : Tree Key} {frame : Frame Key} {color : Color}
    {sibling : Tree Key} (h : sibling.inorder = frame.sibling.inorder) :
    (plug focus ({ frame with color := color, sibling := sibling } :: frames)).inorder =
      (plug focus (frame :: frames)).inorder := by
  simp only [inorder_plug, before, after, h]

/-- A rearranged focus fits where the focus did. -/
theorem Fits.plug_congr {focus focus' : Tree Key} (hfits : Fits background (plug focus frames))
    (h : focus'.inorder = focus.inorder) : Fits background (plug focus' frames) :=
  hfits.congr (congrArg (List.map Prod.fst) (inorder_plug_congr h))

/-- A recoloured frame fits where the frame did. -/
theorem Fits.frame_congr {focus : Tree Key} {frame : Frame Key}
    (hfits : Fits background (plug focus (frame :: frames))) (color : Color) {sibling : Tree Key}
    (h : sibling.inorder = frame.sibling.inorder) :
    Fits background (plug focus ({ frame with color := color, sibling := sibling } :: frames)) :=
  hfits.congr (congrArg (List.map Prod.fst) (inorder_plug_frame h))

/-- Recolouring the root of a focus. -/
theorem setColor_lay {focus : Tree Key} (hfits : Fits background (plug focus frames))
    (hfocus : focus ≠ .nil) (color : Color) :
    setColor focus.ptr color (lay background (plug focus frames)) =
      .ok () (lay background (plug (focus.recolor color) frames)) := by
  cases focus with
  | nil => exact absurd rfl hfocus
  | node address old left key right =>
    rw [Tree.ptr_node, setColor_node (cell_focus hfits)]
    have hfits' := hfits.plug_congr (Tree.inorder_recolor (.node address old left key right) color)
    congr 1
    refine lay_ext (fun other ↦ ?_) ?_ rfl rfl rfl rfl rfl
    · have hnodup := (nodup_addresses_plug _ _).mp hfits.nodup
      have haddress : address ∉ contextAddresses frames := hnodup.2.2 address (by simp)
      rw [cell_assign, cell_lay_plug hfits, cellAt_plug hfits'.nodup, Tree.cellAt_recolor,
        Tree.ptr_recolor, Tree.ptr_node, Option.or_assoc]
      by_cases hother : other = address
      · subst hother
        simp [Tree.cellAt]
      · rw [if_neg hother, if_neg (by simpa using Ne.symm hother)]
    · cases frames with
      | nil => rfl
      | cons frame rest => exact ptr_plug_cons _ _ frame rest

/-- Recolouring the node above a focus. -/
theorem setColor_frame {focus : Tree Key} {frame : Frame Key}
    (hfits : Fits background (plug focus (frame :: frames))) (color : Color) :
    setColor (.node frame.address) color (lay background (plug focus (frame :: frames))) =
      .ok () (lay background (plug focus ({ frame with color := color } :: frames))) := by
  have hframe := Tree.ptr_branch frame.side frame.address frame.color focus frame.key frame.sibling
  have hrun := setColor_lay (show Fits background (plug (frame.plug focus) frames) from hfits)
    (Tree.branch_ne_nil _ _ _ _ _ _) color
  rw [Frame.plug, hframe, Tree.recolor_branch] at hrun
  exact hrun

/-- Recolouring the sibling of a focus. -/
theorem setColor_sibling {focus : Tree Key} {frame : Frame Key}
    (hfits : Fits background (plug focus (frame :: frames))) (hsibling : frame.sibling ≠ .nil)
    (color : Color) :
    setColor frame.sibling.ptr color (lay background (plug focus (frame :: frames))) =
      .ok () (lay background
        (plug focus ({ frame with sibling := frame.sibling.recolor color } :: frames))) := by
  rw [← plug_swap] at hfits ⊢
  rw [setColor_lay hfits hsibling, ← plug_swap focus]
  rfl

/-- Recolouring the sentinel black. -/
theorem setColor_nil {s : State Key} (h : s.nilNode.color = .black) :
    setColor .nil .black s = .ok () s := by
  obtain ⟨⟨heap, nilNode, allocated, freed, fuse⟩, root, size⟩ := s
  obtain ⟨data, color, parent, left, right⟩ := nilNode
  obtain rfl : color = .black := h
  rfl

/-! ### Rotations -/

section Rotation

variable {side : Side} {x y : ℕ} {cx cy : Color} {near inner far : Tree Key} {kx ky : Key}

/-- Two nodes, one below the other, their subtrees and the nodes above have different addresses. -/
theorem apart_branch
    (hnodup : (plug (.branch side x cx near kx (.branch side y cy inner ky far))
      frames).addresses.Nodup) :
    x ≠ y ∧
      (∀ other, other = x ∨ other = y → other ∉ near.addresses ∧ other ∉ inner.addresses ∧
        other ∉ far.addresses ∧ other ∉ contextAddresses frames) ∧
      (∀ other ∈ inner.addresses, other ∉ near.addresses) ∧
      ∀ other ∈ contextAddresses frames, other ∉ near.addresses ∧ other ∉ inner.addresses ∧
        other ∉ far.addresses := by
  simp only [nodup_addresses_plug, Tree.nodup_addresses_branch, Tree.mem_addresses_branch] at hnodup
  refine ⟨?_, ?_, ?_, ?_⟩ <;> grind

/-- The cells of two nodes, one below the other, and of the rest of the tree. -/
theorem cell_branches
    (hfits : Fits background
      (plug (.branch side x cx near kx (.branch side y cy inner ky far)) frames)) (other : ℕ) :
    (lay background (plug (.branch side x cx near kx (.branch side y cy inner ky far))
        frames)).heap.cell other =
      if other = x then some (.ofSide side kx cx (hole frames) near.ptr (.node y))
      else if other = y then some (.ofSide side ky cy (.node x) inner.ptr far.ptr)
      else (near.cellAt (.node x) other).or ((inner.cellAt (.node y) other).or
        ((far.cellAt (.node y) other).or
          ((contextCellAt frames (.node x) other).or (background.heap.cell other)))) := by
  obtain ⟨hxy, hpair, -, -⟩ := apart_branch hfits.nodup
  have hupper := ((nodup_addresses_plug _ _).mp hfits.nodup).1
  have hlower := ((Tree.nodup_addresses_branch _ _ _ _ _ _).mp hupper).2.1
  rw [cell_lay_plug hfits, Tree.cellAt_branch hupper, Tree.cellAt_branch hlower, Tree.ptr_branch,
    Tree.ptr_branch]
  by_cases hx : other = x
  · rw [if_pos hx, if_pos hx, Option.some_or]
  by_cases hy : other = y
  · rw [if_neg hx, if_neg hx, if_pos hy, if_pos hy,
      Tree.cellAt_eq_none (hpair other (Or.inr hy)).1, Option.none_or, Option.some_or]
  · rw [if_neg hx, if_neg hx, if_neg hy, if_neg hy, Option.or_assoc, Option.or_assoc]

/-- The state after the statements of a rotation. -/
def State.rotated (s : State Key) (side : Side) (x y : ℕ) (inner : Tree Key)
    (frames : List (Frame Key)) : State Key :=
  ((((((s.assign x fun node ↦ node.setChild side.flip inner.ptr).adopted inner (.node x)).assign
    y fun node ↦ { node with parent := hole frames }).relinked frames (.node y)).assign
      y fun node ↦ node.setChild side (.node x)).assign x
        fun node ↦ { node with parent := .node y })

/-- The statements of a rotation. -/
theorem rotate_run
    (hfits : Fits background
      (plug (.branch side x cx near kx (.branch side y cy inner ky far)) frames)) :
    rotate side (.node x)
        (lay background
          (plug (.branch side x cx near kx (.branch side y cy inner ky far)) frames)) =
      .ok () ((lay background
        (plug (.branch side x cx near kx (.branch side y cy inner ky far)) frames)).rotated
          side x y inner frames) := by
  obtain ⟨hxy, hpair, -, hcontext⟩ := apart_branch hfits.nodup
  have hcell := cell_branches hfits
  have hhangs := hangsOn_focus hfits (Tree.ptr_branch side x cx near kx _)
  have hlive (address : ℕ) (haddress : inner.ptr = .node address) :=
    live_of_mem (show address ∈ _ by simp [Tree.mem_addresses_of_ptr haddress]) hfits
  set s := lay background (plug (.branch side x cx near kx (.branch side y cy inner ky far)) frames)
  have hx : s.heap.cell x = some (.ofSide side kx cx (hole frames) near.ptr (.node y)) := by
    rw [hcell, if_pos rfl]
  have hy : s.heap.cell y = some (.ofSide side ky cy (.node x) inner.ptr far.ptr) := by
    rw [hcell, if_neg hxy.symm, if_pos rfl]
  have hptr (other : ℕ) (hother : other ∉ inner.addresses) : inner.ptr ≠ .node other :=
    fun heq ↦ hother (Tree.mem_addresses_of_ptr heq)
  obtain ⟨-, hx_inner, -, hx_frames⟩ := hpair x (Or.inl rfl)
  obtain ⟨-, hy_inner, -, hy_frames⟩ := hpair y (Or.inr rfl)
  have hx' := hptr x hx_inner
  have hy' := hptr y hy_inner
  have hne (address : ℕ) (haddress : inner.ptr = .node address) : address ≠ x := by
    rintro rfl
    exact hx' haddress
  have hframe : ∀ frame rest, frames = frame :: rest →
      frame.address ≠ x ∧ frame.address ≠ y ∧ inner.ptr ≠ .node frame.address := by
    rintro frame rest rfl
    have hmem := (mem_contextAddresses_cons frame rest frame.address).mpr (Or.inl rfl)
    refine ⟨?_, ?_, hptr _ (hcontext _ hmem).2.1⟩ <;> grind
  unfold rotate
  rw [bind_ok (read_node hx), RBNode.ofSide_child_flip, bind_ok (require_apply (by simp) _ _),
    bind_ok (read_node hy),
    RBNode.ofSide_child, bind_ok (setChild_node hx _ _), bind_ok (read_node (by
      rw [cell_assign, if_neg hxy.symm, hy])), RBNode.ofSide_child, bind_ok (adopt_run (by
      intro address haddress
      obtain ⟨node, hnode⟩ := hlive address haddress
      exact ⟨node, by rw [cell_assign, if_neg (hne address haddress), hnode]⟩)),
    bind_ok (read_node (by
      rw [cell_adopted, if_neg hx', cell_assign, if_pos rfl, hx, Option.map_some])),
    bind_ok (setParent_node (by
      rw [cell_adopted, if_neg hy', cell_assign, if_neg hxy.symm, hy]) _),
    bind_ok (relink_run (by
      rw [cell_assign, if_neg hxy, cell_adopted, if_neg hx', cell_assign, if_pos rfl, hx,
        Option.map_some]) (by cases side <;> rfl) (hhangs.congr (by
      intro frame rest hframes
      obtain ⟨hne_x, hne_y, hne_inner⟩ := hframe frame rest hframes
      rw [cell_assign, if_neg hne_y, cell_adopted, if_neg hne_inner, cell_assign,
        if_neg hne_x]))),
    bind_ok (setChild_node (by
      rw [cell_relinked_of_notMem hy_frames, cell_assign, if_pos rfl, cell_adopted, if_neg hy',
        cell_assign, if_neg hxy.symm, hy]
      rfl) _ _),
    setParent_node (by
      rw [cell_assign, if_neg hxy, cell_relinked_of_notMem hx_frames, cell_assign, if_neg hxy,
        cell_adopted, if_neg hx', cell_assign, if_pos rfl, hx]; rfl)]
  cases side <;> rfl

/-- The tree that is laid out after a rotation. -/
theorem rotated_eq
    (hfits : Fits background
      (plug (.branch side x cx near kx (.branch side y cy inner ky far)) frames)) :
    (lay background
        (plug (.branch side x cx near kx (.branch side y cy inner ky far)) frames)).rotated
          side x y inner frames =
      lay background
        (plug (.branch side y cy (.branch side x cx near kx inner) ky far) frames) := by
  obtain ⟨hxy, hpair, hinner, hcontext⟩ := apart_branch hfits.nodup
  have hfits' : Fits background
      (plug (.branch side y cy (.branch side x cx near kx inner) ky far) frames) :=
    hfits.plug_congr (by cases side <;> simp [Tree.branch])
  have hcell := cell_branches hfits
  have hptr (other : ℕ) (hother : other ∉ inner.addresses) : inner.ptr ≠ .node other :=
    fun heq ↦ hother (Tree.mem_addresses_of_ptr heq)
  obtain ⟨-, hx_inner, -, hx_frames⟩ := hpair x (Or.inl rfl)
  obtain ⟨-, hy_inner, -, hy_frames⟩ := hpair y (Or.inr rfl)
  have hupper := ((nodup_addresses_plug _ _).mp hfits'.nodup).1
  have hlower := ((Tree.nodup_addresses_branch _ _ _ _ _ _).mp hupper).1
  refine lay_ext (fun other ↦ ?_) ?_ rfl rfl rfl rfl rfl
  · rw [cellAt_plug hfits'.nodup, Option.or_assoc, Tree.ptr_branch, Tree.cellAt_branch hupper,
      Tree.cellAt_branch hlower, State.rotated]
    by_cases hx : other = x
    · rw [hx, cell_assign, if_pos rfl, cell_assign, if_neg hxy, cell_relinked_of_notMem hx_frames,
        cell_assign, if_neg hxy, cell_adopted, if_neg (hptr x hx_inner), cell_assign, if_pos rfl,
        hcell, if_pos rfl, if_neg hxy, if_pos rfl]
      cases side <;> rfl
    by_cases hy : other = y
    · rw [hy, cell_assign, if_neg hxy.symm, cell_assign, if_pos rfl,
        cell_relinked_of_notMem hy_frames, cell_assign, if_pos rfl, cell_adopted,
        if_neg (hptr y hy_inner), cell_assign, if_neg hxy.symm, hcell, if_neg hxy.symm, if_pos rfl,
        if_pos rfl]
      cases side <;> rfl
    · rw [if_neg hy, if_neg hx, cell_assign, if_neg hx, cell_assign, if_neg hy]
      refine cell_relinked (.node x) ?_ fun hmem ↦ ?_
      · rw [cell_assign, if_neg hy, Option.or_assoc, Option.or_assoc]
        refine cell_adopted_subtree (.node y) _ ?_ fun hmem ↦ Tree.cellAt_eq_none (hinner _ hmem) _
        rw [cell_assign, if_neg hx, hcell, if_neg hx, if_neg hy]
      · obtain ⟨hnear, hinner', hfar⟩ := hcontext other hmem
        rw [Tree.cellAt_eq_none hnear, Tree.cellAt_eq_none hinner', Tree.cellAt_eq_none hfar]
        rfl
  · cases frames with
    | nil => exact (Tree.ptr_branch _ _ _ _ _ _).symm
    | cons frame rest => exact ptr_plug_cons _ _ frame rest

/-- The rotation of a focus: the far child moves up, its inner subtree changes hands. -/
theorem rotate_lay
    (hfits : Fits background
      (plug (.branch side x cx near kx (.branch side y cy inner ky far)) frames)) :
    rotate side (.node x)
        (lay background
          (plug (.branch side x cx near kx (.branch side y cy inner ky far)) frames)) =
      .ok () (lay background
        (plug (.branch side y cy (.branch side x cx near kx inner) ky far) frames)) := by
  rw [rotate_run hfits, rotated_eq hfits]

end Rotation

end StudStuff.RedBlackTree
