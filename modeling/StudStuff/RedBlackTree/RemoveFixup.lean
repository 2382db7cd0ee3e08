import StudStuff.RedBlackTree.Balance
import StudStuff.RedBlackTree.Rotation

/-!
# `RemoveFixup` on laid out trees

The loop of `RemoveFixup` runs at a focus that is one black node short of what its context
accepts (`Deficit`). The focus may be the sentinel: then its parent is read from the parent field
of the sentinel, and `Anchored` says that this field was set to the node above the focus.
`removeFixup_step` is one iteration at a black focus: the sibling is a node, and the loop goes on
at a focus that is again one short, that is red, or that is the root of the repaired tree.
`removeFixup_lay` is the whole function.
-/

set_option autoImplicit false
set_option relaxedAutoImplicit false

namespace StudStuff.RedBlackTree

open Lib

variable {Key : Type}

/-- A focus that is one black node short of `height + 1`: black with height `height`, or red and
balanced once it is blackened. -/
inductive Deficit (focus : Tree Key) (height : ℕ) : Prop
  | black (h : Balanced focus .black height)
  | red (hcolor : focus.color = .red) (h : Balanced (focus.recolor .black) .black (height + 1))

/-- The sentinel, when it is the focus, points to the node above it. -/
def Anchored (background : State Key) (focus : Tree Key) (frames : List (Frame Key)) : Prop :=
  focus = .nil → background.nilNode.parent = hole frames

section Cases

variable {background : State Key} {focus : Tree Key} {frames rest : List (Frame Key)}
  {side : Side} {parent w : ℕ} {parentColor color : Color} {parentKey key : Key}
  {near far : Tree Key}

/-- Reading the focus, be it a node or the sentinel, shows its colour and the node above it. -/
theorem read_anchored (hfits : Fits background (plug focus frames))
    (hnil : background.nilNode.color = .black) (hanchored : Anchored background focus frames) :
    ∃ node, read focus.ptr (lay background (plug focus frames)) =
      .ok node (lay background (plug focus frames)) ∧
        node.color = focus.color ∧ node.parent = hole frames := by
  cases focus with
  | nil => exact ⟨_, rfl, hnil, hanchored rfl⟩
  | node address color left key right => exact ⟨_, read_focus hfits, rfl, rfl⟩

/-- The sibling of the focus. -/
theorem sibling_lay {frame : Frame Key} (hfits : Fits background (plug focus (frame :: rest)))
    (hnil : background.nilNode.color = .black)
    (hanchored : Anchored background focus (frame :: rest))
    (hsibling : frame.sibling ≠ .nil) :
    sibling frame.side focus.ptr (lay background (plug focus (frame :: rest))) =
      .ok frame.sibling.ptr (lay background (plug focus (frame :: rest))) := by
  obtain ⟨node, hread, -, hparent⟩ := read_anchored hfits hnil hanchored
  unfold sibling
  refine (bind_ok hread).trans ?_
  rw [hparent]
  refine (bind_ok (read_frame hfits)).trans ?_
  rw [RBNode.ofSide_child_flip]
  exact bind_ok (require_apply (by simpa [Tree.ptr_eq_nil_iff] using hsibling) _ _)

/-- A tree around a focus whose sibling is a node, seen from that node. -/
theorem plug_sibling : plug focus (⟨side, parent, parentColor, parentKey,
      .branch side w color near key far⟩ :: rest) =
    plug (.branch side w color near key far)
      (⟨side.flip, parent, parentColor, parentKey, focus⟩ :: rest) :=
  (plug_swap focus ⟨side, parent, parentColor, parentKey, .branch side w color near key far⟩
    rest).symm

/-- The same tree seen from the near nephew. -/
theorem plug_near : plug focus (⟨side, parent, parentColor, parentKey,
      .branch side w color near key far⟩ :: rest) =
    plug near (⟨side, w, color, key, far⟩ ::
      ⟨side.flip, parent, parentColor, parentKey, focus⟩ :: rest) :=
  plug_sibling

/-- The same tree seen from the far nephew. -/
theorem plug_far : plug focus (⟨side, parent, parentColor, parentKey,
      .branch side w color near key far⟩ :: rest) =
    plug far (⟨side.flip, w, color, key, near⟩ ::
      ⟨side.flip, parent, parentColor, parentKey, focus⟩ :: rest) := by
  rw [plug_sibling, ← Tree.branch_flip side w]
  rfl

/-- Reading the sibling. -/
theorem read_sibling (hfits : Fits background (plug focus (⟨side, parent, parentColor, parentKey,
      .branch side w color near key far⟩ :: rest))) :
    read (.node w) (lay background (plug focus (⟨side, parent, parentColor, parentKey,
        .branch side w color near key far⟩ :: rest))) =
      .ok (.ofSide side key color (.node parent) near.ptr far.ptr)
        (lay background (plug focus (⟨side, parent, parentColor, parentKey,
          .branch side w color near key far⟩ :: rest))) := by
  rw [plug_sibling] at hfits ⊢
  exact read_branch hfits

/-- Recolouring the sibling. -/
theorem setColor_w (color' : Color) (hfits : Fits background (plug focus
      (⟨side, parent, parentColor, parentKey, .branch side w color near key far⟩ :: rest))) :
    setColor (.node w) color' (lay background (plug focus (⟨side, parent, parentColor, parentKey,
        .branch side w color near key far⟩ :: rest))) =
      .ok () (lay background (plug focus (⟨side, parent, parentColor, parentKey,
        .branch side w color' near key far⟩ :: rest))) := by
  have hrun := setColor_sibling hfits (Tree.branch_ne_nil _ _ _ _ _ _) color'
  rw [Tree.ptr_branch, Tree.recolor_branch] at hrun
  exact hrun

/-- Case 1 of `RemoveFixup`: a red sibling is rotated above the parent. -/
theorem removeFixupRedSibling_red (hfits : Fits background (plug focus
      (⟨side, parent, parentColor, parentKey, .branch side w .red near key far⟩ :: rest)))
    (hnil : background.nilNode.color = .black)
    (hanchored : background.nilNode.parent = .node parent ∨ focus ≠ .nil) (hnear : near ≠ .nil) :
    removeFixupRedSibling side focus.ptr (lay background (plug focus
        (⟨side, parent, parentColor, parentKey, .branch side w .red near key far⟩ :: rest))) =
      .ok near.ptr (lay background (plug focus
        (⟨side, parent, .red, parentKey, near⟩ :: ⟨side, w, .black, key, far⟩ :: rest))) := by
  have hanchor (above : Frame Key) (habove : above.address = parent) (outer : List (Frame Key)) :
      Anchored background focus (above :: outer) := fun hfocus ↦
    hanchored.elim (fun h ↦ by rw [h, hole_cons, habove]) (fun h ↦ absurd hfocus h)
  have hfits₁ : Fits background (plug focus
      (⟨side, parent, parentColor, parentKey, .branch side w .black near key far⟩ :: rest)) :=
    hfits.frame_congr parentColor (by cases side <;> rfl)
  have hfits₂ : Fits background (plug focus
      (⟨side, parent, .red, parentKey, .branch side w .black near key far⟩ :: rest)) :=
    hfits.frame_congr .red (by cases side <;> rfl)
  have hfits₃ : Fits background (plug focus
      (⟨side, parent, .red, parentKey, near⟩ :: ⟨side, w, .black, key, far⟩ :: rest)) :=
    hfits₂.congr (by
      cases side <;> simp [Tree.addresses, inorder_plug, Frame.plug, Tree.branch])
  have hsibling := sibling_lay hfits hnil (hanchor _ rfl rest) (Tree.branch_ne_nil _ _ _ _ _ _)
  rw [Tree.ptr_branch] at hsibling
  obtain ⟨node, hread, -, hparent⟩ := read_anchored hfits₁ hnil (hanchor _ rfl rest)
  obtain ⟨node', hread', -, hparent'⟩ := read_anchored hfits₂ hnil (hanchor _ rfl rest)
  unfold removeFixupRedSibling
  refine (bind_ok hsibling).trans ?_
  refine (bind_ok (read_sibling hfits)).trans ?_
  rw [RBNode.ofSide_color, if_pos rfl]
  refine (bind_ok (setColor_w .black hfits)).trans ?_
  refine (bind_ok hread).trans ?_
  rw [hparent]
  refine (bind_ok (setColor_frame hfits₁ .red)).trans ?_
  refine (bind_ok hread').trans ?_
  rw [hparent']
  refine (bind_ok (rotate_lay hfits₂)).trans ?_
  have hfits₄ : Fits background (plug focus (⟨side, parent, .red, parentKey, near⟩ ::
    _)) := hfits₃
  exact sibling_lay hfits₄ hnil (hanchor _ rfl _) hnear

/-- No Case 1: a black sibling stays. -/
theorem removeFixupRedSibling_black (hfits : Fits background (plug focus
      (⟨side, parent, parentColor, parentKey, .branch side w .black near key far⟩ :: rest)))
    (hnil : background.nilNode.color = .black)
    (hanchored : background.nilNode.parent = .node parent ∨ focus ≠ .nil) :
    removeFixupRedSibling side focus.ptr (lay background (plug focus
        (⟨side, parent, parentColor, parentKey, .branch side w .black near key far⟩ :: rest))) =
      .ok (.node w) (lay background (plug focus
        (⟨side, parent, parentColor, parentKey, .branch side w .black near key far⟩ :: rest))) := by
  have hanchor : Anchored background focus (⟨side, parent, parentColor, parentKey,
      .branch side w .black near key far⟩ :: rest) := fun hfocus ↦
    hanchored.elim id (fun h ↦ absurd hfocus h)
  have hsibling := sibling_lay hfits hnil hanchor (Tree.branch_ne_nil _ _ _ _ _ _)
  rw [Tree.ptr_branch] at hsibling
  unfold removeFixupRedSibling
  refine (bind_ok hsibling).trans ?_
  refine (bind_ok (read_sibling hfits)).trans ?_
  rw [RBNode.ofSide_color, if_neg (by decide), pure_apply]

/-- Reading the near nephew shows its colour. -/
theorem read_near (hfits : Fits background (plug focus
      (⟨side, parent, parentColor, parentKey, .branch side w color near key far⟩ :: rest)))
    (hnil : background.nilNode.color = .black) :
    ∃ node, read near.ptr (lay background (plug focus
        (⟨side, parent, parentColor, parentKey, .branch side w color near key far⟩ :: rest))) =
      .ok node (lay background (plug focus
        (⟨side, parent, parentColor, parentKey, .branch side w color near key far⟩ :: rest))) ∧
      node.color = near.color := by
  rw [plug_near] at hfits ⊢
  exact read_color hfits hnil

/-- Reading the far nephew shows its colour. -/
theorem read_far (hfits : Fits background (plug focus
      (⟨side, parent, parentColor, parentKey, .branch side w color near key far⟩ :: rest)))
    (hnil : background.nilNode.color = .black) :
    ∃ node, read far.ptr (lay background (plug focus
        (⟨side, parent, parentColor, parentKey, .branch side w color near key far⟩ :: rest))) =
      .ok node (lay background (plug focus
        (⟨side, parent, parentColor, parentKey, .branch side w color near key far⟩ :: rest))) ∧
      node.color = far.color := by
  rw [plug_far] at hfits ⊢
  exact read_color hfits hnil

/-- Recolouring the near nephew. -/
theorem setColor_near (color' : Color) (hnear : near ≠ .nil) (hfits : Fits background (plug focus
      (⟨side, parent, parentColor, parentKey, .branch side w color near key far⟩ :: rest))) :
    setColor near.ptr color' (lay background (plug focus
        (⟨side, parent, parentColor, parentKey, .branch side w color near key far⟩ :: rest))) =
      .ok () (lay background (plug focus (⟨side, parent, parentColor, parentKey,
        .branch side w color (near.recolor color') key far⟩ :: rest))) := by
  rw [plug_near] at hfits ⊢
  rw [plug_near]
  exact setColor_lay hfits hnear color'

/-- Recolouring the far nephew. -/
theorem setColor_far (color' : Color) (hfar : far ≠ .nil) (hfits : Fits background (plug focus
      (⟨side, parent, parentColor, parentKey, .branch side w color near key far⟩ :: rest))) :
    setColor far.ptr color' (lay background (plug focus
        (⟨side, parent, parentColor, parentKey, .branch side w color near key far⟩ :: rest))) =
      .ok () (lay background (plug focus (⟨side, parent, parentColor, parentKey,
        .branch side w color near key (far.recolor color')⟩ :: rest))) := by
  rw [plug_far] at hfits ⊢
  rw [plug_far]
  exact setColor_lay hfits hfar color'

/-- Case 3 of `RemoveFixup`: a black far nephew is replaced by the red near one. -/
theorem removeFixupInner_black {nephew : ℕ} {first second : Tree Key} {nephewKey : Key}
    (hfits : Fits background (plug focus (⟨side, parent, parentColor, parentKey,
      .branch side w color (.branch side nephew .red first nephewKey second) key far⟩ :: rest)))
    (hnil : background.nilNode.color = .black)
    (hanchored : background.nilNode.parent = .node parent ∨ focus ≠ .nil)
    (hfar : far.color = .black) :
    removeFixupInner side focus.ptr (.node w) (lay background (plug focus
        (⟨side, parent, parentColor, parentKey,
          .branch side w color
            (.branch side nephew .red first nephewKey second) key far⟩ :: rest))) =
      .ok (.node nephew) (lay background (plug focus (⟨side, parent, parentColor, parentKey,
        .branch side nephew .black first nephewKey
          (.branch side w .red second key far)⟩ :: rest))) := by
  obtain ⟨node, hread, hcolor⟩ := read_far hfits hnil
  have hfits₁ : Fits background (plug focus (⟨side, parent, parentColor, parentKey,
      .branch side w color (.branch side nephew .black first nephewKey second) key far⟩ ::
        rest)) := hfits.frame_congr parentColor (by cases side <;> simp [Tree.branch])
  have hfits₂ : Fits background (plug focus (⟨side, parent, parentColor, parentKey,
      .branch side w .red (.branch side nephew .black first nephewKey second) key far⟩ ::
        rest)) := hfits.frame_congr parentColor (by cases side <;> simp [Tree.branch])
  have hfits₃ : Fits background (plug focus (⟨side, parent, parentColor, parentKey,
      .branch side nephew .black first nephewKey (.branch side w .red second key far)⟩ ::
        rest)) := hfits.frame_congr parentColor (by cases side <;> simp [Tree.branch])
  have hblacken := setColor_near .black (Tree.branch_ne_nil _ _ _ _ _ _) hfits
  rw [Tree.recolor_branch] at hblacken
  -- The sibling, seen from the far nephew, is rotated towards it.
  have hshape : plug focus (⟨side, parent, parentColor, parentKey,
      .branch side w .red (.branch side nephew .black first nephewKey second) key far⟩ :: rest) =
    plug (.branch side.flip w .red far key (.branch side.flip nephew .black second nephewKey first))
      (⟨side.flip, parent, parentColor, parentKey, focus⟩ :: rest) := by
    rw [plug_sibling, Tree.branch_flip, Tree.branch_flip]
  have hshape' : plug focus (⟨side, parent, parentColor, parentKey,
      .branch side nephew .black first nephewKey (.branch side w .red second key far)⟩ :: rest) =
    plug (.branch side.flip nephew .black (.branch side.flip w .red far key second) nephewKey first)
      (⟨side.flip, parent, parentColor, parentKey, focus⟩ :: rest) := by
    rw [plug_sibling, Tree.branch_flip, Tree.branch_flip]
  have hsibling := sibling_lay (show Fits background (plug focus (⟨side, parent, parentColor,
    parentKey, .branch side nephew .black first nephewKey (.branch side w .red second key far)⟩ ::
      rest)) from hfits₃) hnil
    (fun hfocus ↦ hanchored.elim id (fun h ↦ absurd hfocus h)) (Tree.branch_ne_nil _ _ _ _ _ _)
  rw [Tree.ptr_branch] at hsibling
  unfold removeFixupInner
  refine (bind_ok (read_sibling hfits)).trans ?_
  rw [RBNode.ofSide_child_flip]
  refine (bind_ok hread).trans ?_
  rw [hcolor, if_pos hfar]
  refine (bind_ok (read_sibling hfits)).trans ?_
  rw [RBNode.ofSide_child]
  refine (bind_ok hblacken).trans ?_
  refine (bind_ok (setColor_w .red hfits₁)).trans ?_
  rw [hshape] at hfits₂ ⊢
  refine (bind_ok (rotate_lay hfits₂)).trans ?_
  rw [← hshape']
  exact hsibling

/-- No Case 3: a red far nephew stays. -/
theorem removeFixupInner_red (hfits : Fits background (plug focus
      (⟨side, parent, parentColor, parentKey, .branch side w color near key far⟩ :: rest)))
    (hnil : background.nilNode.color = .black) (hfar : far.color = .red) (x : Ptr) :
    removeFixupInner side x (.node w) (lay background (plug focus
        (⟨side, parent, parentColor, parentKey, .branch side w color near key far⟩ :: rest))) =
      .ok (.node w) (lay background (plug focus
        (⟨side, parent, parentColor, parentKey, .branch side w color near key far⟩ :: rest))) := by
  obtain ⟨node, hread, hcolor⟩ := read_far hfits hnil
  unfold removeFixupInner
  refine (bind_ok (read_sibling hfits)).trans ?_
  rw [RBNode.ofSide_child_flip]
  refine (bind_ok hread).trans ?_
  rw [hcolor, if_neg (by rw [hfar]; decide), pure_apply]

/-- Case 4 of `RemoveFixup`: the red far nephew pays for the missing black node. -/
theorem removeFixupOuter_lay (hfits : Fits background (plug focus
      (⟨side, parent, parentColor, parentKey, .branch side w color near key far⟩ :: rest)))
    (hnil : background.nilNode.color = .black)
    (hanchored : background.nilNode.parent = .node parent ∨ focus ≠ .nil) (hfar : far ≠ .nil) :
    removeFixupOuter side focus.ptr (.node w) (lay background (plug focus
        (⟨side, parent, parentColor, parentKey, .branch side w color near key far⟩ :: rest))) =
      .ok () (lay background (plug (.branch side w parentColor
        (.branch side parent .black focus parentKey near) key (far.recolor .black)) rest)) := by
  have hanchor (above : Frame Key) (habove : above.address = parent) :
      Anchored background focus (above :: rest) := fun hfocus ↦
    hanchored.elim (fun h ↦ by rw [h, hole_cons, habove]) (fun h ↦ absurd hfocus h)
  have hfits₁ : Fits background (plug focus (⟨side, parent, parentColor, parentKey,
      .branch side w parentColor near key far⟩ :: rest)) :=
    hfits.frame_congr parentColor (by cases side <;> rfl)
  have hfits₂ : Fits background (plug focus (⟨side, parent, parentColor, parentKey,
      .branch side w parentColor near key (far.recolor .black)⟩ :: rest)) :=
    hfits.frame_congr parentColor (by cases side <;> simp [Tree.branch])
  have hfits₃ : Fits background (plug focus (⟨side, parent, .black, parentKey,
      .branch side w parentColor near key (far.recolor .black)⟩ :: rest)) :=
    hfits.frame_congr .black (by cases side <;> simp [Tree.branch])
  obtain ⟨node, hread, -, hparent⟩ := read_anchored hfits hnil (hanchor _ rfl)
  obtain ⟨node', hread', -, hparent'⟩ := read_anchored hfits₂ hnil (hanchor _ rfl)
  obtain ⟨node'', hread'', -, hparent''⟩ := read_anchored hfits₃ hnil (hanchor _ rfl)
  unfold removeFixupOuter
  refine (bind_ok hread).trans ?_
  rw [hparent]
  refine (bind_ok (read_frame hfits)).trans ?_
  rw [RBNode.ofSide_color]
  refine (bind_ok (setColor_w parentColor hfits)).trans ?_
  refine (bind_ok (read_sibling hfits₁)).trans ?_
  rw [RBNode.ofSide_child_flip]
  refine (bind_ok (setColor_far .black hfar hfits₁)).trans ?_
  refine (bind_ok hread').trans ?_
  rw [hparent']
  refine (bind_ok (setColor_frame hfits₂ .black)).trans ?_
  refine (bind_ok hread'').trans ?_
  rw [hparent'']
  exact rotate_lay hfits₃

/-- The test of the source reads the colours of the nephews. -/
theorem removeFixupBlackSibling_eq (hfits : Fits background (plug focus
      (⟨side, parent, parentColor, parentKey, .branch side w color near key far⟩ :: rest)))
    (hnil : background.nilNode.color = .black) (x : Ptr) :
    removeFixupBlackSibling side x (.node w) (lay background (plug focus
        (⟨side, parent, parentColor, parentKey, .branch side w color near key far⟩ :: rest))) =
      (if near.color = .black ∧ far.color = .black then do
          setColor (.node w) .red
          return (← read x).parent
        else do
          removeFixupOuter side x (← removeFixupInner side x (.node w))
          return (← get).root : TreeM Key Ptr) (lay background (plug focus
        (⟨side, parent, parentColor, parentKey, .branch side w color near key far⟩ :: rest))) := by
  obtain ⟨node, hread, hnode⟩ := read_near hfits hnil
  obtain ⟨node', hread', hnode'⟩ := read_far hfits hnil
  unfold removeFixupBlackSibling
  refine (bind_ok (read_sibling hfits)).trans ?_
  rw [RBNode.ofSide_child]
  refine (bind_ok hread).trans ?_
  refine (bind_ok (read_sibling hfits)).trans ?_
  rw [RBNode.ofSide_child_flip]
  refine (bind_ok hread').trans ?_
  rw [hnode, hnode']

/-- Case 2 of `RemoveFixup`: two black nephews. -/
theorem removeFixupBlackSibling_blackNephews (hfits : Fits background (plug focus
      (⟨side, parent, parentColor, parentKey, .branch side w color near key far⟩ :: rest)))
    (hnil : background.nilNode.color = .black)
    (hanchored : background.nilNode.parent = .node parent ∨ focus ≠ .nil)
    (hnear : near.color = .black) (hfar : far.color = .black) :
    removeFixupBlackSibling side focus.ptr (.node w) (lay background (plug focus
        (⟨side, parent, parentColor, parentKey, .branch side w color near key far⟩ :: rest))) =
      .ok (.node parent) (lay background (plug (.branch side parent parentColor focus parentKey
        (.branch side w .red near key far)) rest)) := by
  have hfits' : Fits background (plug focus (⟨side, parent, parentColor, parentKey,
      .branch side w .red near key far⟩ :: rest)) :=
    hfits.frame_congr parentColor (by cases side <;> rfl)
  obtain ⟨node, hread, -, hparent⟩ := read_anchored hfits' hnil
    fun hfocus ↦ hanchored.elim id (fun h ↦ absurd hfocus h)
  rw [removeFixupBlackSibling_eq hfits hnil, if_pos ⟨hnear, hfar⟩]
  refine (bind_ok (setColor_w .red hfits)).trans ?_
  refine (bind_ok hread).trans ?_
  rw [hparent]
  rfl

/-- Cases 3 and 4 of `RemoveFixup`: the near nephew is red and the far one is black. -/
theorem removeFixupBlackSibling_redNear {nephew : ℕ} {first second : Tree Key} {nephewKey : Key}
    (hfits : Fits background (plug focus (⟨side, parent, parentColor, parentKey,
      .branch side w color (.branch side nephew .red first nephewKey second) key far⟩ :: rest)))
    (hnil : background.nilNode.color = .black)
    (hanchored : background.nilNode.parent = .node parent ∨ focus ≠ .nil)
    (hfar : far.color = .black) :
    removeFixupBlackSibling side focus.ptr (.node w) (lay background (plug focus
        (⟨side, parent, parentColor, parentKey,
          .branch side w color
            (.branch side nephew .red first nephewKey second) key far⟩ :: rest))) =
      .ok (plug (.branch side nephew parentColor (.branch side parent .black focus parentKey first)
          nephewKey (.branch side w .black second key far)) rest).ptr
        (lay background (plug (.branch side nephew parentColor
          (.branch side parent .black focus parentKey first) nephewKey
            (.branch side w .black second key far)) rest)) := by
  have hfits' : Fits background (plug focus (⟨side, parent, parentColor, parentKey,
      .branch side nephew .black first nephewKey (.branch side w .red second key far)⟩ ::
        rest)) := hfits.frame_congr parentColor (by cases side <;> simp [Tree.branch])
  have hnear : ¬((Tree.branch side nephew .red first nephewKey second).color = .black ∧
      far.color = .black) := by
    rw [Tree.color_branch]
    simp
  rw [removeFixupBlackSibling_eq hfits hnil, if_neg hnear]
  refine (bind_ok (removeFixupInner_black hfits hnil hanchored hfar)).trans ?_
  have houter := removeFixupOuter_lay hfits' hnil hanchored (Tree.branch_ne_nil _ _ _ _ _ _)
  rw [Tree.recolor_branch] at houter
  exact bind_ok houter

/-- Case 4 of `RemoveFixup`: the far nephew is red. -/
theorem removeFixupBlackSibling_redFar (hfits : Fits background (plug focus
      (⟨side, parent, parentColor, parentKey, .branch side w color near key far⟩ :: rest)))
    (hnil : background.nilNode.color = .black)
    (hanchored : background.nilNode.parent = .node parent ∨ focus ≠ .nil)
    (hfar : far.color = .red) (hne : far ≠ .nil) :
    removeFixupBlackSibling side focus.ptr (.node w) (lay background (plug focus
        (⟨side, parent, parentColor, parentKey, .branch side w color near key far⟩ :: rest))) =
      .ok (plug (.branch side w parentColor (.branch side parent .black focus parentKey near) key
          (far.recolor .black)) rest).ptr
        (lay background (plug (.branch side w parentColor
          (.branch side parent .black focus parentKey near) key (far.recolor .black)) rest)) := by
  rw [removeFixupBlackSibling_eq hfits hnil, if_neg (by rw [hfar]; simp)]
  refine (bind_ok (removeFixupInner_red hfits hnil hfar _)).trans ?_
  exact bind_ok (removeFixupOuter_lay hfits hnil hanchored hne)

end Cases

/-! ### The loop -/

section Colors

variable {side : Side} {parent w : ℕ} {parentColor : Color} {parentKey key : Key}
  {near far focus : Tree Key} {rest : List (Frame Key)} {height : ℕ} {nearColor farColor : Color}

/-- Case 4 repairs the tree. -/
theorem balanced_outer (hfocus : Balanced focus .black height)
    (hnear : Balanced near nearColor height) (hfar : Balanced far .red height)
    (haccepts : Accepts (⟨side, parent, parentColor, parentKey,
      .branch side w .black near key far⟩ :: rest) .black (height + 1)) :
    ∃ height', Balanced (plug (.branch side w parentColor
      (.branch side parent .black focus parentKey near) key (far.recolor .black)) rest)
        .black height' := by
  have hlower : Balanced (.branch side parent .black focus parentKey near) .black (height + 1) :=
    .branch_black hfocus hnear
  cases hcolor : parentColor with
  | red =>
    obtain ⟨-, -, hrest⟩ := haccepts.of_cons_red hcolor
    exact hrest.plug (.branch_red hlower hfar.recolor_black)
  | black =>
    obtain ⟨-, hrest⟩ := haccepts.of_cons_black hcolor
    exact hrest.plug (.branch_black hlower hfar.recolor_black)

/-- A context accepts what it did when the sibling is another tree of the same height. -/
theorem Accepts.replace_sibling {sibling sibling' : Tree Key}
    (haccepts : Accepts (⟨side, parent, parentColor, parentKey, sibling⟩ :: rest) .black height)
    (hsibling : Balanced sibling' .black height) :
    Accepts (⟨side, parent, parentColor, parentKey, sibling'⟩ :: rest) .black height := by
  cases hcolor : parentColor with
  | red => exact .cons_red rfl hsibling (haccepts.of_cons_red hcolor).2.2
  | black => exact .cons_black rfl hsibling (haccepts.of_cons_black hcolor).2

/-- After Case 2 the parent is one black node short, or red. -/
theorem deficit_parent (hfocus : Balanced focus .black height)
    (hsibling : Balanced (.branch side w .red near key far) .red height)
    {sibling : Tree Key} (haccepts : Accepts (⟨side, parent, parentColor, parentKey, sibling⟩ ::
      rest) .black (height + 1)) :
    ∃ height', Deficit (.branch side parent parentColor focus parentKey
        (.branch side w .red near key far)) height' ∧ Accepts rest .black (height' + 1) := by
  have hblack : Balanced (.branch side parent .black focus parentKey
      (.branch side w .red near key far)) .black (height + 1) :=
    .branch_black hfocus hsibling
  cases parentColor with
  | red =>
    refine ⟨height, .red (Tree.color_branch _ _ _ _ _ _) ?_, (haccepts.of_cons_red rfl).2.2.black⟩
    rw [Tree.recolor_branch]
    exact hblack
  | black => exact ⟨height + 1, .black hblack, (haccepts.of_cons_black rfl).2⟩

/-- Cases 2 to 4 at a black focus whose sibling is a black node. -/
theorem removeFixupBlackSibling_lay (hfocus : Balanced focus .black height)
    (hnear : Balanced near nearColor height) (hfar : Balanced far farColor height)
    (haccepts : Accepts (⟨side, parent, parentColor, parentKey,
      .branch side w .black near key far⟩ :: rest) .black (height + 1)) :
    ∃ focus' frames height', Deficit focus' height' ∧ Accepts frames .black (height' + 1) ∧
      focus' ≠ .nil ∧
      (focus'.color = .red ∨ frames = [] ∨ parentColor = .black ∧ frames = rest) ∧
      (plug focus' frames).inorder = (plug focus (⟨side, parent, parentColor, parentKey,
        .branch side w .black near key far⟩ :: rest)).inorder ∧
      ∀ background : State Key, Fits background (plug focus (⟨side, parent, parentColor, parentKey,
          .branch side w .black near key far⟩ :: rest)) →
        background.nilNode.color = .black →
        background.nilNode.parent = .node parent ∨ focus ≠ .nil →
          removeFixupBlackSibling side focus.ptr (.node w)
              (lay background (plug focus (⟨side, parent, parentColor, parentKey,
                .branch side w .black near key far⟩ :: rest))) =
            .ok focus'.ptr (lay background (plug focus' frames)) := by
  cases farColor with
  | red =>
    obtain ⟨height', hplug⟩ := balanced_outer hfocus hnear hfar haccepts
    refine ⟨_, [], height', .black hplug, .nil _, plug_ne_nil (Tree.branch_ne_nil _ _ _ _ _ _) _,
      Or.inr (Or.inl rfl), ?_, fun background hfits hnil hanchored ↦ ?_⟩
    · cases side <;> simp [inorder_plug, Frame.plug, Tree.branch]
    · exact removeFixupBlackSibling_redFar hfits hnil hanchored hfar.color_eq hfar.ne_nil_of_red
  | black =>
    cases nearColor with
    | red =>
      -- Case 3 turns the near nephew into a far one; Case 4 follows.
      obtain ⟨nephew, first, nephewKey, second, rfl, hfirst, hsecond⟩ := hnear.red_cases side
      have hsibling : Balanced (.branch side nephew .black first nephewKey
          (.branch side w .red second key far)) .black (height + 1) :=
        .branch_black hfirst (.branch_red hsecond hfar)
      obtain ⟨height', hplug⟩ := balanced_outer hfocus hfirst (.branch_red hsecond hfar)
        (haccepts.replace_sibling hsibling)
      rw [Tree.recolor_branch] at hplug
      refine ⟨_, [], height', .black hplug, .nil _, plug_ne_nil (Tree.branch_ne_nil _ _ _ _ _ _) _,
        Or.inr (Or.inl rfl), ?_, fun background hfits hnil hanchored ↦ ?_⟩
      · cases side <;> simp [inorder_plug, Frame.plug, Tree.branch]
      · exact removeFixupBlackSibling_redNear hfits hnil hanchored hfar.color_eq
    | black =>
      obtain ⟨height', hdeficit, hrest⟩ :=
        deficit_parent hfocus (.branch_red hnear hfar) haccepts
      refine ⟨.branch side parent parentColor focus parentKey (.branch side w .red near key far),
        rest, height', hdeficit, hrest, Tree.branch_ne_nil _ _ _ _ _ _, ?_, ?_,
          fun background hfits hnil hanchored ↦ ?_⟩
      · rw [Tree.color_branch]
        cases parentColor with
        | red => exact Or.inl rfl
        | black => exact Or.inr (Or.inr ⟨rfl, rfl⟩)
      · cases side <;> simp [inorder_plug, Frame.plug, Tree.branch]
      · rw [Tree.ptr_branch]
        exact removeFixupBlackSibling_blackNephews hfits hnil hanchored hnear.color_eq hfar.color_eq

end Colors

/-- The iteration of the loop at a black focus below the root. -/
theorem removeFixupLoop_succ {background : State Key} {focus : Tree Key} {frame : Frame Key}
    {rest : List (Frame Key)} {next : Ptr} {s : State Key} {bound : ℕ}
    (hfits : Fits background (plug focus (frame :: rest)))
    (hnil : background.nilNode.color = .black)
    (hanchored : Anchored background focus (frame :: rest)) (hblack : focus.color = .black)
    (hsibling : frame.sibling ≠ .nil)
    (hside : removeFixupSide frame.side focus.ptr (lay background (plug focus (frame :: rest))) =
      .ok next s) :
    removeFixupLoop (bound + 1) focus.ptr (lay background (plug focus (frame :: rest))) =
      removeFixupLoop bound next s := by
  obtain ⟨node, hread, hcolor, hparent⟩ := read_anchored hfits hnil hanchored
  rw [removeFixupLoop]
  refine (bind_ok (get_apply _)).trans ?_
  refine (bind_ok hread).trans ?_
  rw [if_pos ⟨ptr_ne_root hfits, hcolor.trans hblack⟩]
  refine (bind_ok hread).trans ?_
  rw [hparent]
  refine (bind_ok (read_frame hfits)).trans ?_
  cases hframe : frame.side with
  | left =>
    rw [hframe] at hside
    rw [if_pos (by rfl)]
    exact bind_ok hside
  | right =>
    rw [hframe] at hside
    have hne : focus.ptr ≠ (RBNode.ofSide .right frame.key frame.color (hole rest) focus.ptr
        frame.sibling.ptr).left := ptr_ne_sibling hfits (Or.inr hsibling)
    rw [if_neg hne]
    exact bind_ok hside

/-- One iteration of the loop at a black focus below the root. -/
theorem removeFixup_step {focus : Tree Key} {frame : Frame Key} {rest : List (Frame Key)}
    {height : ℕ} (hfocus : Balanced focus .black height)
    (haccepts : Accepts (frame :: rest) .black (height + 1)) :
    ∃ focus' frames height', Deficit focus' height' ∧ Accepts frames .black (height' + 1) ∧
      focus' ≠ .nil ∧ (focus'.color = .red ∨ frames.length < (frame :: rest).length) ∧
      (plug focus' frames).inorder = (plug focus (frame :: rest)).inorder ∧
      ∀ background : State Key, Fits background (plug focus (frame :: rest)) →
        background.nilNode.color = .black → Anchored background focus (frame :: rest) → ∀ bound,
          removeFixupLoop (bound + 1) focus.ptr (lay background (plug focus (frame :: rest))) =
            removeFixupLoop bound focus'.ptr (lay background (plug focus' frames)) := by
  obtain ⟨siblingColor, hsibling⟩ := haccepts.sibling
  obtain ⟨side, parent, parentColor, parentKey, sibling⟩ := frame
  have hanchor {background : State Key} (hanchored : Anchored background focus
      (⟨side, parent, parentColor, parentKey, sibling⟩ :: rest)) :
      background.nilNode.parent = .node parent ∨ focus ≠ .nil :=
    (em (focus = .nil)).imp hanchored id
  cases siblingColor with
  | black =>
    obtain ⟨w, near, key, far, nearColor, farColor, rfl, hnear, hfar⟩ := hsibling.black_cases side
    obtain ⟨focus', frames, height', hdeficit, haccepts', hne, hmeasure, hinorder, hrun⟩ :=
      removeFixupBlackSibling_lay hfocus hnear hfar haccepts
    refine ⟨focus', frames, height', hdeficit, haccepts', hne, ?_, hinorder,
      fun background hfits hnil hanchored bound ↦ ?_⟩
    · rcases hmeasure with hred | rfl | ⟨-, rfl⟩
      · exact Or.inl hred
      · exact Or.inr (Nat.succ_pos _)
      · exact Or.inr (Nat.lt_succ_self _)
    · refine removeFixupLoop_succ hfits hnil hanchored hfocus.color_eq
        (Tree.branch_ne_nil _ _ _ _ _ _) ?_
      unfold removeFixupSide
      refine (bind_ok (removeFixupRedSibling_black hfits hnil (hanchor hanchored))).trans ?_
      exact hrun background hfits hnil (hanchor hanchored)
  | red =>
    obtain ⟨w, inner, key, far, rfl, hinner, hfar⟩ := hsibling.red_cases side
    obtain ⟨w', near', key', far', nearColor, farColor, rfl, hnear', hfar'⟩ :=
      hinner.black_cases side
    have hparent : parentColor = .black := by
      cases parentColor with
      | black => rfl
      | red =>
        have hcolor := (haccepts.of_cons_red rfl).2.1.color_eq
        rw [Tree.color_branch] at hcolor
        cases hcolor
    obtain ⟨-, hrest⟩ := haccepts.of_cons_black hparent
    have haccepts₁ : Accepts (⟨side, parent, .red, parentKey,
        .branch side w' .black near' key' far'⟩ :: ⟨side, w, .black, key, far⟩ :: rest)
          .black (height + 1) :=
      .cons_red rfl hinner (.cons_black rfl hfar hrest)
    obtain ⟨focus', frames, height', hdeficit, haccepts', hne, hmeasure, hinorder, hrun⟩ :=
      removeFixupBlackSibling_lay hfocus hnear' hfar' haccepts₁
    have hrotated : (plug focus (⟨side, parent, .red, parentKey,
        .branch side w' .black near' key' far'⟩ :: ⟨side, w, .black, key, far⟩ :: rest)).inorder =
      (plug focus (⟨side, parent, parentColor, parentKey,
        .branch side w .red
          (.branch side w' .black near' key' far') key far⟩ :: rest)).inorder := by
      cases side <;> simp [inorder_plug, Frame.plug, Tree.branch]
    refine ⟨focus', frames, height', hdeficit, haccepts', hne, ?_, hinorder.trans hrotated,
      fun background hfits hnil hanchored bound ↦ ?_⟩
    · rcases hmeasure with hred | rfl | ⟨hblack, -⟩
      · exact Or.inl hred
      · exact Or.inr (Nat.succ_pos _)
      · cases hblack
    · refine removeFixupLoop_succ hfits hnil hanchored hfocus.color_eq
        (Tree.branch_ne_nil _ _ _ _ _ _) ?_
      unfold removeFixupSide
      refine (bind_ok (removeFixupRedSibling_red hfits hnil (hanchor hanchored)
        (Tree.branch_ne_nil _ _ _ _ _ _))).trans ?_
      rw [Tree.ptr_branch]
      exact hrun background (hfits.congr (congrArg (List.map Prod.fst) hrotated)) hnil
        (hanchor hanchored)

/-- The loop stops at a red focus and at the root. -/
theorem removeFixupLoop_stop {background : State Key} {focus : Tree Key}
    {frames : List (Frame Key)} {bound : ℕ} (hfits : Fits background (plug focus frames))
    (hnil : background.nilNode.color = .black) (hanchored : Anchored background focus frames)
    (hdone : focus.color = .red ∨ frames = []) (hbound : 0 < bound) :
    removeFixupLoop bound focus.ptr (lay background (plug focus frames)) =
      .ok focus.ptr (lay background (plug focus frames)) := by
  obtain ⟨bound, rfl⟩ : ∃ count, bound = count + 1 := ⟨bound - 1, by omega⟩
  obtain ⟨node, hread, hcolor, -⟩ := read_anchored hfits hnil hanchored
  rw [removeFixupLoop]
  refine (bind_ok (get_apply _)).trans ?_
  refine (bind_ok hread).trans ?_
  rw [if_neg, pure_apply]
  rintro ⟨hroot, hblack⟩
  rcases hdone with hred | rfl
  · rw [← hcolor, hblack] at hred
    cases hred
  · exact hroot rfl

/-- The loop stops at a focus whose blackening balances the tree. The focus is the same whatever
the background and the bound on the iterations. -/
theorem removeFixupLoop_lay {focus : Tree Key} {frames : List (Frame Key)} {height : ℕ}
    (hfocus : Deficit focus height) (haccepts : Accepts frames .black (height + 1)) :
    ∃ focus' frames' height', Balanced (plug (focus'.recolor .black) frames') .black height' ∧
      (plug focus' frames').inorder = (plug focus frames).inorder ∧
      ∀ background : State Key, Fits background (plug focus frames) →
        background.nilNode.color = .black → Anchored background focus frames →
        ∀ bound, frames.length < bound →
          removeFixupLoop bound focus.ptr (lay background (plug focus frames)) =
            .ok focus'.ptr (lay background (plug focus' frames')) := by
  induction hcount : frames.length using Nat.strong_induction_on
    generalizing focus frames height with
  | _ count ih =>
  cases hfocus with
  | red hred hbalanced =>
    obtain ⟨height', hplug⟩ := haccepts.plug hbalanced
    exact ⟨focus, frames, height', hplug, rfl, fun background hfits hnil hanchored bound hbound ↦
      removeFixupLoop_stop hfits hnil hanchored (Or.inl hred) (by omega)⟩
  | black hbalanced =>
    cases frames with
    | nil =>
      refine ⟨focus, [], height, ?_, rfl, fun background hfits hnil hanchored bound hbound ↦
        removeFixupLoop_stop hfits hnil hanchored (Or.inr rfl) (by omega)⟩
      rw [hbalanced.recolor_self]
      exact hbalanced
    | cons frame rest =>
      obtain ⟨focus₁, frames₁, height₁, hdeficit, haccepts₁, hne, hmeasure, hinorder, hrun⟩ :=
        removeFixup_step hbalanced haccepts
      have hfits₁ {background : State Key} (hfits : Fits background (plug focus (frame :: rest))) :
          Fits background (plug focus₁ frames₁) :=
        hfits.congr (congrArg (List.map Prod.fst) hinorder)
      have hanchored₁ (background : State Key) : Anchored background focus₁ frames₁ :=
        fun hfocus ↦ absurd hfocus hne
      by_cases hred : focus₁.color = .red
      · cases hdeficit with
        | black h =>
          rw [h.color_eq] at hred
          cases hred
        | red _ hbalanced₁ =>
          obtain ⟨height', hplug⟩ := haccepts₁.plug hbalanced₁
          refine ⟨focus₁, frames₁, height', hplug, hinorder,
            fun background hfits hnil hanchored bound hbound ↦ ?_⟩
          rw [List.length_cons] at hcount
          obtain ⟨bound, rfl⟩ : ∃ count, bound = count + 1 := ⟨bound - 1, by omega⟩
          rw [hrun background hfits hnil hanchored]
          exact removeFixupLoop_stop (hfits₁ hfits) hnil (hanchored₁ _) (Or.inl hred) (by omega)
      · have hlt : frames₁.length < count := hcount ▸ hmeasure.resolve_left hred
        obtain ⟨focus₂, frames₂, height₂, hplug, hinorder₂, hrun₂⟩ :=
          ih _ hlt hdeficit haccepts₁ rfl
        refine ⟨focus₂, frames₂, height₂, hplug, hinorder₂.trans hinorder,
          fun background hfits hnil hanchored bound hbound ↦ ?_⟩
        obtain ⟨bound, rfl⟩ : ∃ count, bound = count + 1 := ⟨bound - 1, by omega⟩
        rw [hrun background hfits hnil hanchored]
        exact hrun₂ background (hfits₁ hfits) hnil (hanchored₁ _) bound (by omega)

/-- `RemoveFixup` at a subtree one black node short repairs the tree. The repaired tree does not
depend on the memory around it. -/
theorem removeFixup_lay {focus : Tree Key} {frames : List (Frame Key)} {height : ℕ}
    (hfocus : Deficit focus height) (haccepts : Accepts frames .black (height + 1)) :
    ∃ tree height', Balanced tree .black height' ∧ tree.inorder = (plug focus frames).inorder ∧
      ∀ background : State Key, Fits background (plug focus frames) →
        background.nilNode.color = .black → Anchored background focus frames →
          removeFixup focus.ptr (lay background (plug focus frames)) =
            .ok () (lay background tree) := by
  obtain ⟨focus', frames', height', hplug, hinorder, hrun⟩ := removeFixupLoop_lay hfocus haccepts
  refine ⟨plug (focus'.recolor .black) frames', height', hplug, ?_,
    fun background hfits hnil hanchored ↦ ?_⟩
  · rw [← hinorder]
    exact inorder_plug_congr (Tree.inorder_recolor _ _)
  · have hfits' : Fits background (plug focus' frames') :=
      hfits.congr (congrArg (List.map Prod.fst) hinorder)
    have hbound := length_frames_le_live hfits
    unfold removeFixup
    refine (bind_ok (fuel_apply _)).trans ?_
    refine (bind_ok (hrun background hfits hnil hanchored _ (by omega))).trans ?_
    by_cases hne : focus' = .nil
    · subst hne
      exact setColor_nil hnil
    · exact setColor_lay hfits' hne .black

end StudStuff.RedBlackTree
