import StudStuff.RedBlackTree.Balance
import StudStuff.RedBlackTree.Rotation

/-!
# `InsertFixup` on laid out trees

The loop of `InsertFixup` runs with a red focus in a context that accepts a black tree of the
same height: everything is balanced except that the focus and the node above it may both be red.
`insertFixup_step` is one iteration under that invariant. Whichever case applies, the loop goes
on at a red focus with fewer frames above it, the listing is unchanged, and the new shape does not
depend on anything outside the tree. `insertFixupLoop_lay` is the whole loop and
`insertFixup_lay` the function: it ends, meets no sentinel where it needs a node, and leaves a
balanced tree.
-/

set_option autoImplicit false
set_option relaxedAutoImplicit false

namespace StudStuff.RedBlackTree

open Lib

variable {Key : Type}

section Cases

variable {background : State Key} {focus : Tree Key} {parent grandpa : Frame Key}
  {rest : List (Frame Key)}

/-- Reading the uncle shows its colour. -/
theorem read_uncle (hfits : Fits background (plug focus (parent :: grandpa :: rest)))
    (hnil : background.nilNode.color = .black) :
    ∃ node, read grandpa.sibling.ptr (lay background (plug focus (parent :: grandpa :: rest))) =
      .ok node (lay background (plug focus (parent :: grandpa :: rest))) ∧
        node.color = grandpa.sibling.color := by
  have hread := read_color (show Fits background (plug grandpa.sibling
    (grandpa.swap (parent.plug focus) :: rest)) by rw [plug_swap]; exact hfits) hnil
  rw [plug_swap] at hread
  exact hread

/-- Case 1 of `InsertFixup`: the uncle is red. -/
theorem insertFixupSide_redUncle (hfits : Fits background (plug focus (parent :: grandpa :: rest)))
    (hnil : background.nilNode.color = .black) (huncle : grandpa.sibling.color = .red) :
    insertFixupSide grandpa.side focus.ptr (.node parent.address) (.node grandpa.address)
        (lay background (plug focus (parent :: grandpa :: rest))) =
      .ok (.node grandpa.address) (lay background
        (plug (Frame.plug { grandpa with color := .red, sibling := grandpa.sibling.recolor .black }
          (Frame.plug { parent with color := .black } focus)) rest)) := by
  have hne : grandpa.sibling ≠ .nil := by
    intro h
    simp [h] at huncle
  have hfits₁ : Fits background (plug (Frame.plug { parent with color := .black } focus)
      (grandpa :: rest)) := hfits.frame_congr .black rfl
  have hfits₂ : Fits background (plug (Frame.plug { parent with color := .black } focus)
      ({ grandpa with sibling := grandpa.sibling.recolor .black } :: rest)) :=
    hfits₁.frame_congr grandpa.color (Tree.inorder_recolor _ _)
  obtain ⟨uncle, hread, hcolor⟩ := read_uncle hfits hnil
  unfold insertFixupSide
  refine (bind_ok (read_frame (show Fits background (plug (parent.plug focus) (grandpa :: rest))
    from hfits))).trans ?_
  rw [RBNode.ofSide_child_flip]
  refine (bind_ok hread).trans ?_
  rw [hcolor, if_pos huncle]
  refine (bind_ok (setColor_frame hfits .black)).trans ?_
  refine (bind_ok (setColor_sibling hfits₁ hne .black)).trans ?_
  exact bind_ok (setColor_frame hfits₂ .red)

/-- Case 2b of `InsertFixup`: the focus is an outer grandchild. -/
theorem insertFixupOuter_lay (hside : parent.side = grandpa.side)
    (hfits : Fits background (plug focus (parent :: grandpa :: rest))) :
    insertFixupOuter grandpa.side (.node parent.address) (.node grandpa.address)
        (lay background (plug focus (parent :: grandpa :: rest))) =
      .ok () (lay background (plug focus ({ parent with
        color := .black
        sibling := .branch grandpa.side grandpa.address .red parent.sibling grandpa.key
          grandpa.sibling } :: rest))) := by
  have hfits₁ : Fits background (plug (Frame.plug { parent with color := .black } focus)
      (grandpa :: rest)) := hfits.frame_congr .black rfl
  have hfits₂ : Fits background (plug (Frame.plug { parent with color := .black } focus)
      ({ grandpa with color := .red } :: rest)) :=
    hfits₁.frame_congr .red rfl
  have hshape : plug (Frame.plug { parent with color := .black } focus)
      ({ grandpa with color := .red } :: rest) =
        plug (.branch grandpa.side.flip grandpa.address .red grandpa.sibling grandpa.key
          (.branch grandpa.side.flip parent.address .black parent.sibling parent.key focus))
          rest := by
    rw [Tree.branch_flip, Tree.branch_flip, ← hside]
    simp only [plug_cons, Frame.plug, hside]
  have hrotated : plug focus ({ parent with
        color := .black
        sibling := .branch grandpa.side grandpa.address .red parent.sibling grandpa.key
          grandpa.sibling } :: rest) =
      plug (.branch grandpa.side.flip parent.address .black
        (.branch grandpa.side.flip grandpa.address .red grandpa.sibling grandpa.key
          parent.sibling) parent.key focus) rest := by
    rw [Tree.branch_flip, Tree.branch_flip]
    simp only [plug_cons, Frame.plug, hside]
  unfold insertFixupOuter
  refine (bind_ok (require_apply (by simp) _ _)).trans ?_
  refine (bind_ok (setColor_frame hfits .black)).trans ?_
  refine (bind_ok (setColor_frame hfits₁ .red)).trans ?_
  rw [hshape] at hfits₂ ⊢
  rw [hrotated]
  exact rotate_lay hfits₂

/-- Case 2 of `InsertFixup` at an outer grandchild. -/
theorem insertFixupSide_outer (hside : parent.side = grandpa.side)
    (hfits : Fits background (plug focus (parent :: grandpa :: rest))) (hfocus : focus ≠ .nil)
    (hnil : background.nilNode.color = .black) (huncle : grandpa.sibling.color = .black) :
    insertFixupSide grandpa.side focus.ptr (.node parent.address) (.node grandpa.address)
        (lay background (plug focus (parent :: grandpa :: rest))) =
      .ok focus.ptr (lay background (plug focus ({ parent with
        color := .black
        sibling := .branch grandpa.side grandpa.address .red parent.sibling grandpa.key
          grandpa.sibling } :: rest))) := by
  obtain ⟨uncle, hread, hcolor⟩ := read_uncle hfits hnil
  unfold insertFixupSide
  refine (bind_ok (read_frame (show Fits background (plug (parent.plug focus) (grandpa :: rest))
    from hfits))).trans ?_
  rw [RBNode.ofSide_child_flip]
  refine (bind_ok hread).trans ?_
  rw [hcolor, if_neg (by rw [huncle]; decide)]
  refine (bind_ok (read_frame hfits)).trans ?_
  rw [if_neg (by
    rw [← hside, RBNode.ofSide_child_flip]
    exact ptr_ne_sibling hfits (Or.inl hfocus))]
  exact bind_ok (insertFixupOuter_lay hside hfits)

/-- Case 2 of `InsertFixup` at an inner grandchild: the rotation of Case 2a makes the parent an
outer grandchild below the node, and Case 2b follows. -/
theorem insertFixupSide_inner {address : ℕ} {near far : Tree Key} {key : Key}
    (hside : parent.side = grandpa.side.flip) (hparent : parent.color = .red)
    (hfits : Fits background
      (plug (.branch grandpa.side address .red near key far) (parent :: grandpa :: rest)))
    (hnil : background.nilNode.color = .black) (huncle : grandpa.sibling.color = .black) :
    insertFixupSide grandpa.side (.node address) (.node parent.address) (.node grandpa.address)
        (lay background
          (plug (.branch grandpa.side address .red near key far) (parent :: grandpa :: rest))) =
      .ok (.node parent.address) (lay background
        (plug (.branch grandpa.side parent.address .red parent.sibling parent.key near) ({
          side := grandpa.side
          address := address
          color := .black
          key := key
          sibling := .branch grandpa.side grandpa.address .red far grandpa.key grandpa.sibling } ::
          rest))) := by
  obtain ⟨uncle, hread, hcolor⟩ := read_uncle hfits hnil
  have hshape : plug (.branch grandpa.side address .red near key far) (parent :: grandpa :: rest) =
      plug (.branch grandpa.side parent.address .red parent.sibling parent.key
        (.branch grandpa.side address .red near key far)) (grandpa :: rest) := by
    rw [← Tree.branch_flip grandpa.side parent.address]
    simp only [plug_cons, Frame.plug, hside, hparent]
  have hfits₁ := hfits
  rw [hshape] at hfits₁
  have hfits₂ : Fits background (plug (.branch grandpa.side address .red
      (.branch grandpa.side parent.address .red parent.sibling parent.key near) key far)
      (grandpa :: rest)) :=
    hfits₁.plug_congr (by cases grandpa.side <;> simp [Tree.branch])
  have hparentRead := read_frame (show Fits background
    (plug (.branch grandpa.side address .red near key far) (parent :: grandpa :: rest)) from hfits)
  unfold insertFixupSide
  refine (bind_ok (read_frame (show Fits background (plug (parent.plug
    (.branch grandpa.side address .red near key far)) (grandpa :: rest)) from hfits))).trans ?_
  rw [RBNode.ofSide_child_flip]
  refine (bind_ok hread).trans ?_
  rw [hcolor, if_neg (by rw [huncle]; decide)]
  refine (bind_ok hparentRead).trans ?_
  rw [← hside, RBNode.ofSide_child, if_pos (by simp)]
  rw [hshape]
  refine (bind_ok (rotate_lay hfits₁)).trans ?_
  let lifted : Frame Key := ⟨grandpa.side, address, .red, key, far⟩
  refine (bind_ok (read_branch (show Fits background (plug (.branch grandpa.side parent.address .red
    parent.sibling parent.key near) (lifted :: grandpa :: rest)) from hfits₂))).trans ?_
  rw [RBNode.ofSide_parent, hole_cons]
  refine (bind_ok (read_frame (show Fits background (plug (.branch grandpa.side parent.address .red
    parent.sibling parent.key near) (lifted :: grandpa :: rest)) from hfits₂))).trans ?_
  rw [RBNode.ofSide_parent, hole_cons]
  exact bind_ok (insertFixupOuter_lay rfl (show Fits background (plug (.branch grandpa.side
    parent.address .red parent.sibling parent.key near) (lifted :: grandpa :: rest)) from hfits₂))

end Cases

/-! ### The loop -/

/-- The iteration of the loop at a red node under a red node. -/
theorem insertFixupLoop_succ {background : State Key} {focus : Tree Key}
    {parent grandpa : Frame Key} {rest : List (Frame Key)} {next : Ptr} {s : State Key}
    {bound : ℕ} (hfits : Fits background (plug focus (parent :: grandpa :: rest)))
    (hfocus : focus ≠ .nil) (hparent : parent.color = .red)
    (hside : insertFixupSide grandpa.side focus.ptr (.node parent.address) (.node grandpa.address)
      (lay background (plug focus (parent :: grandpa :: rest))) = .ok next s) :
    insertFixupLoop (bound + 1) focus.ptr
        (lay background (plug focus (parent :: grandpa :: rest))) =
      insertFixupLoop bound next s := by
  obtain ⟨node, hnode, hhole⟩ : ∃ node, read focus.ptr
      (lay background (plug focus (parent :: grandpa :: rest))) =
        .ok node (lay background (plug focus (parent :: grandpa :: rest))) ∧
      node.parent = .node parent.address := by
    cases focus with
    | nil => exact absurd rfl hfocus
    | node address color left key right => exact ⟨_, read_focus hfits, rfl⟩
  have hread := read_frame hfits
  have hfits' : Fits background (plug (parent.plug focus) (grandpa :: rest)) := hfits
  have hread' := read_frame hfits'
  rw [insertFixupLoop]
  refine (bind_ok hnode).trans ?_
  rw [hhole]
  refine (bind_ok hread).trans ?_
  rw [RBNode.ofSide_color, if_pos hparent]
  refine (bind_ok hnode).trans ?_
  rw [hhole]
  refine (bind_ok hread).trans ?_
  rw [RBNode.ofSide_parent, hole_cons]
  refine (bind_ok (require_apply (by simp) _ _)).trans ?_
  refine (bind_ok hread').trans ?_
  have hptr : (parent.plug focus).ptr = .node parent.address := Tree.ptr_branch _ _ _ _ _ _
  cases hgrandpa : grandpa.side with
  | left =>
    rw [hgrandpa] at hside
    rw [if_pos (by rw [hptr]; rfl)]
    exact bind_ok hside
  | right =>
    rw [hgrandpa] at hside
    rw [if_neg (by
      rw [← hptr]
      exact ptr_ne_sibling hfits' (Or.inl (Tree.branch_ne_nil _ _ _ _ _ _)))]
    exact bind_ok hside

/-- One iteration of the loop: it goes on at a red focus with fewer frames above it. -/
theorem insertFixup_step {focus : Tree Key} {parent : Frame Key} {above : List (Frame Key)}
    {height : ℕ} (hfocus : Balanced focus .red height)
    (haccepts : Accepts (parent :: above) .black height) (hparent : parent.color = .red) :
    ∃ focus' frames height', Balanced focus' .red height' ∧ Accepts frames .black height' ∧
      frames.length < (parent :: above).length ∧
      (plug focus' frames).inorder = (plug focus (parent :: above)).inorder ∧
      ∀ background : State Key, Fits background (plug focus (parent :: above)) →
        background.nilNode.color = .black → ∀ bound,
          insertFixupLoop (bound + 1) focus.ptr (lay background (plug focus (parent :: above))) =
            insertFixupLoop bound focus'.ptr (lay background (plug focus' frames)) := by
  obtain ⟨-, hsibling, habove⟩ := haccepts.of_cons_red hparent
  obtain ⟨grandpa, rest, rfl, hgrandpa⟩ := habove.of_red
  obtain ⟨⟨uncleColor, huncle⟩, hrest⟩ := habove.of_cons_black hgrandpa
  cases uncleColor with
  | red =>
    refine ⟨Frame.plug { grandpa with color := .red, sibling := grandpa.sibling.recolor .black }
      (Frame.plug { parent with color := .black } focus), rest, height + 1,
      .branch_red (.branch_black hfocus hsibling) huncle.recolor_black, hrest, ?_, ?_, ?_⟩
    · simp only [List.length_cons]
      omega
    · have hinner : (plug (Frame.plug { parent with color := .black } focus)
          (grandpa :: rest)).inorder = (plug focus (parent :: grandpa :: rest)).inorder :=
        show (plug focus ({ parent with color := .black } :: grandpa :: rest)).inorder = _ from
          inorder_plug_frame rfl
      have houter : (plug (Frame.plug { parent with color := .black } focus) ({ grandpa with
          color := .red, sibling := grandpa.sibling.recolor .black } :: rest)).inorder =
            (plug (Frame.plug { parent with color := .black } focus) (grandpa :: rest)).inorder :=
        inorder_plug_frame (Tree.inorder_recolor _ _)
      exact houter.trans hinner
    · intro background hfits hnil bound
      have hcase := insertFixupSide_redUncle hfits hnil huncle.color_eq
      rw [insertFixupLoop_succ hfits hfocus.ne_nil_of_red hparent hcase, Frame.plug,
        Tree.ptr_branch]
  | black =>
    by_cases hside : parent.side = grandpa.side
    · refine ⟨focus, { parent with
        color := .black
        sibling := .branch grandpa.side grandpa.address .red parent.sibling grandpa.key
          grandpa.sibling } :: rest, height, hfocus,
        .cons_black rfl (.branch_red hsibling huncle) hrest, ?_, ?_, ?_⟩
      · simp
      · cases hgside : grandpa.side <;>
          simp [inorder_plug, Frame.plug, hside, hgside, Tree.branch]
      · intro background hfits hnil bound
        exact insertFixupLoop_succ hfits hfocus.ne_nil_of_red hparent
          (insertFixupSide_outer hside hfits hfocus.ne_nil_of_red hnil huncle.color_eq)
    · have hflip : parent.side = grandpa.side.flip := by
        cases hp : parent.side <;> cases hg : grandpa.side <;> simp_all [Side.flip]
      obtain ⟨address, near, key, far, rfl, hnear, hfar⟩ := hfocus.red_cases grandpa.side
      refine ⟨.branch grandpa.side parent.address .red parent.sibling parent.key near, {
          side := grandpa.side
          address := address
          color := .black
          key := key
          sibling := .branch grandpa.side grandpa.address .red far grandpa.key grandpa.sibling } ::
          rest, height, .branch_red hsibling hnear,
        .cons_black rfl (.branch_red hfar huncle) hrest, ?_, ?_, ?_⟩
      · simp
      · cases hgside : grandpa.side <;>
          simp [inorder_plug, Frame.plug, hflip, hgside, Tree.branch, Side.flip]
      · intro background hfits hnil bound
        have hcase := insertFixupSide_inner hflip hparent hfits hnil huncle.color_eq
        rw [← Tree.ptr_branch grandpa.side address .red near key far] at hcase
        rw [insertFixupLoop_succ hfits hfocus.ne_nil_of_red hparent hcase, Tree.ptr_branch]

/-- The loop ends, with a tree that blackening the root balances. The tree is the same whatever
the background and the bound on the iterations. -/
theorem insertFixupLoop_lay {focus : Tree Key} {frames : List (Frame Key)} {height : ℕ}
    (hfocus : Balanced focus .red height) (haccepts : Accepts frames .black height) :
    ∃ tree color height', Balanced tree color height' ∧
      tree.inorder = (plug focus frames).inorder ∧
      ∀ background : State Key, Fits background (plug focus frames) →
        background.nilNode.color = .black → ∀ bound, frames.length < bound →
          insertFixupLoop bound focus.ptr (lay background (plug focus frames)) =
            .ok () (lay background tree) := by
  induction hlength : frames.length using Nat.strong_induction_on
    generalizing focus frames height with
  | _ length ih =>
    obtain ⟨address, left, key, right, rfl, -, -⟩ := hfocus.red_cases .left
    cases frames with
    | nil =>
      refine ⟨_, .red, height, hfocus, rfl, fun background hfits hnil bound hbound ↦ ?_⟩
      obtain ⟨bound, rfl⟩ : ∃ count, bound = count + 1 := ⟨bound - 1, by omega⟩
      rw [insertFixupLoop, plug_nil]
      refine (bind_ok (read_focus (show Fits background (plug _ []) from hfits))).trans ?_
      refine (bind_ok (read_nil _)).trans ?_
      rw [nilNode_lay, hnil, if_neg (by decide), pure_apply]
      rfl
    | cons parent above =>
      by_cases hparent : parent.color = .red
      · obtain ⟨focus', frames', height', hfocus', haccepts', hshorter, hinorder, hrun⟩ :=
          insertFixup_step hfocus haccepts hparent
        obtain ⟨tree, color, height'', htree, hlist, hloop⟩ :=
          ih _ (hlength ▸ hshorter) hfocus' haccepts' rfl
        refine ⟨tree, color, height'', htree, hlist.trans hinorder,
          fun background hfits hnil bound hbound ↦ ?_⟩
        obtain ⟨bound, rfl⟩ : ∃ count, bound = count + 1 := ⟨bound - 1, by omega⟩
        rw [hrun background hfits hnil bound]
        exact hloop background (hfits.congr (congrArg (List.map Prod.fst) hinorder)) hnil bound
          (by omega)
      · have hblack : parent.color = .black := by
          cases hcolor : parent.color with
          | red => exact absurd hcolor hparent
          | black => rfl
        obtain ⟨⟨_, hsibling⟩, hrest⟩ := haccepts.of_cons_black hblack
        have haccepts' : Accepts (parent :: above) .red height := .cons_black hblack hsibling hrest
        obtain ⟨height', hplug⟩ := haccepts'.plug hfocus
        refine ⟨_, .black, height', hplug, rfl, fun background hfits hnil bound hbound ↦ ?_⟩
        obtain ⟨bound, rfl⟩ : ∃ count, bound = count + 1 := ⟨bound - 1, by omega⟩
        rw [insertFixupLoop]
        refine (bind_ok (read_focus hfits)).trans ?_
        refine (bind_ok (read_frame hfits)).trans ?_
        rw [RBNode.ofSide_color, if_neg hparent, pure_apply]

/-- `InsertFixup` at a red node ends and balances the tree. -/
theorem insertFixup_lay {focus : Tree Key} {frames : List (Frame Key)} {height : ℕ}
    (hfocus : Balanced focus .red height) (haccepts : Accepts frames .black height) :
    ∃ tree height', Balanced tree .black height' ∧
      tree.inorder = (plug focus frames).inorder ∧
      ∀ background : State Key, Fits background (plug focus frames) →
        background.nilNode.color = .black →
          insertFixup focus.ptr (lay background (plug focus frames)) =
            .ok () (lay background tree) := by
  obtain ⟨tree, color, height', htree, hlist, hrun⟩ := insertFixupLoop_lay hfocus haccepts
  obtain ⟨height'', hblack⟩ := htree.exists_recolor_black
  refine ⟨tree.recolor .black, height'', hblack, (Tree.inorder_recolor _ _).trans hlist,
    fun background hfits hnil ↦ ?_⟩
  have hfits' : Fits background tree := hfits.congr (congrArg (List.map Prod.fst) hlist)
  have hne : tree ≠ .nil := by
    rintro rfl
    have hlist' := congrArg List.length hlist
    have hpos := hfocus.ne_nil_of_red
    rw [inorder_plug] at hlist'
    cases focus with
    | nil => exact hpos rfl
    | node address color left key right => simp at hlist'
  have hbound := length_frames_le_live hfits
  unfold insertFixup
  refine (bind_ok (fuel_apply _)).trans ?_
  refine (bind_ok (hrun background hfits hnil _ (by omega))).trans ?_
  refine (bind_ok (get_apply _)).trans ?_
  rw [root_lay]
  exact setColor_lay (show Fits background (plug _ []) from hfits') hne .black

end StudStuff.RedBlackTree
