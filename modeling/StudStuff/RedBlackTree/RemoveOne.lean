import StudStuff.RedBlackTree.Detach
import StudStuff.RedBlackTree.RemoveFixup

/-!
# `RemoveOne` on laid out trees

`Balanced.detached` is the colour bookkeeping of a removal: when the node that leaves its place was
red the tree is still balanced, and when it was black the child that moves up is one black node
short. `detach_lay` combines it with the three cases of the source, and `removeOne_lay` runs the
deletion and the fixup after it. The tree that results, and the listing it has, do not depend on
the memory around the tree.
-/

set_option autoImplicit false
set_option relaxedAutoImplicit false

namespace StudStuff.RedBlackTree

open Lib

variable {Key : Type}

/-! ### Colours after a removal -/

/-- A balanced subtree in a place that was one black node higher. -/
theorem Deficit.of_balanced {tree : Tree Key} {color : Color} {height : ℕ}
    (h : Balanced tree color height) : Deficit tree height := by
  cases color with
  | black => exact .black h
  | red => exact .red h.color_eq h.recolor_black

/-- What is missing at the place of a removed node: nothing if it was red, and one black node
otherwise. -/
def Shortened (focus : Tree Key) (frames : List (Frame Key)) : Color → Prop
  | .red => ∃ height, Balanced (plug focus frames) .black height
  | .black => ∃ height, Deficit focus height ∧ Accepts frames .black (height + 1)

/-- Removing a node with an empty child from a balanced tree. -/
theorem Balanced.detached (side : Side) {address : ℕ} {color : Color} {key : Key}
    {child : Tree Key} {frames : List (Frame Key)} {height : ℕ}
    (h : Balanced (.branch side address color .nil key child) color height)
    (haccepts : Accepts frames color height) : Shortened child frames color := by
  cases color with
  | red => exact haccepts.black.plug h.of_branch_red.2
  | black =>
    cases height with
    | zero => cases side <;> cases h
    | succ height =>
      obtain ⟨-, childColor, hchild⟩ := h.of_branch_black
      exact ⟨height, .of_balanced hchild, haccepts⟩

/-- What a context accepts does not depend on the address and the key of a node in it. -/
theorem Accepts.rename {inner rest : List (Frame Key)} {side : Side} {address address' : ℕ}
    {color frameColor : Color} {key key' : Key} {sibling : Tree Key} {height : ℕ}
    (h : Accepts (inner ++ ⟨side, address, frameColor, key, sibling⟩ :: rest) color height) :
    Accepts (inner ++ ⟨side, address', frameColor, key', sibling⟩ :: rest) color height := by
  induction inner generalizing color height with
  | nil => exact h
  | cons frame inner ih =>
    cases hcolor : frame.color with
    | red =>
      obtain ⟨rfl, hsibling, hrest⟩ := h.of_cons_red hcolor
      exact .cons_red hcolor hsibling (ih hrest)
    | black =>
      obtain ⟨⟨_, hsibling⟩, hrest⟩ := h.of_cons_black hcolor
      exact .cons_black hcolor hsibling (ih hrest)

/-- Frames that all hang on the left list nothing before their focus. -/
theorem before_eq_nil {frames : List (Frame Key)} (h : ∀ frame ∈ frames, frame.side = .left) :
    before frames = [] := by
  induction frames with
  | nil => rfl
  | cons frame rest ih =>
    rw [before, h frame (by simp)]
    exact ih fun other hmem ↦ h other (List.mem_cons_of_mem _ hmem)

/-! ### The three cases -/

/-- `GetMinimum` of a subtree. -/
theorem getMinimum_lay {tree : Tree Key} (hne : tree ≠ .nil) :
    ∃ inner y color key right, tree = plug (.node y color .nil key right) inner ∧
      (∀ frame ∈ inner, frame.side = .left) ∧
      ∀ (background : State Key) (frames : List (Frame Key)),
        Fits background (plug tree frames) →
          getMinimum tree.ptr (lay background (plug tree frames)) =
            .ok (.node y) (lay background (plug tree frames)) := by
  obtain ⟨inner, y, color, key, right, htree, hsides, hrun⟩ := descendLeft_lay hne
  refine ⟨inner, y, color, key, right, htree, hsides, fun background frames hfits ↦ ?_⟩
  have hsize := length_frames_le_size tree frames
  have hlive := size_le_live hfits
  unfold getMinimum
  rw [if_neg (mt (Tree.ptr_eq_nil_iff tree).mp hne)]
  refine (bind_ok (fuel_apply _)).trans ?_
  exact hrun background frames hfits _ (by omega)

/-- `RemoveOne` up to the deletion of the node. -/
theorem detach_lay {x : ℕ} {color : Color} {left right : Tree Key} {key : Key}
    {frames : List (Frame Key)} {height : ℕ}
    (h : Balanced (plug (.node x color left key right) frames) .black height) :
    ∃ child frames' missing, Shortened child frames' missing ∧
      (plug child frames').inorder =
        before frames ++ (left.inorder ++ right.inorder ++ after frames) ∧
      ∀ background : State Key, Fits background (plug (.node x color left key right) frames) →
        ∃ cell, detach (.node x) (lay background (plug (.node x color left key right) frames)) =
          .ok (child.ptr, missing) (lay (background.keeping x cell
            (background.nilNode.anchored child (hole frames'))) (plug child frames')) := by
  obtain ⟨height', hfocus, haccepts⟩ := h.split
  rw [Tree.color_node] at hfocus haccepts
  by_cases hleft : left = .nil
  · subst hleft
    refine ⟨right, frames, color, Balanced.detached .left hfocus haccepts, ?_,
      fun background hfits ↦ ⟨.ofSide .left key color (hole frames) .nil right.ptr, ?_⟩⟩
    · simp [inorder_plug]
    · unfold detach
      refine (bind_ok (read_focus hfits)).trans ?_
      rw [if_pos (Tree.ptr_nil)]
      refine (bind_ok (read_focus hfits)).trans ?_
      refine (bind_ok (read_focus hfits)).trans ?_
      refine (bind_ok (read_focus hfits)).trans ?_
      exact bind_ok (transplant_lay .left hfits)
  by_cases hright : right = .nil
  · subst hright
    refine ⟨left, frames, color, Balanced.detached .right hfocus haccepts, ?_,
      fun background hfits ↦ ⟨.ofSide .right key color (hole frames) .nil left.ptr, ?_⟩⟩
    · simp [inorder_plug]
    · unfold detach
      refine (bind_ok (read_focus hfits)).trans ?_
      rw [if_neg (mt (Tree.ptr_eq_nil_iff left).mp hleft)]
      refine (bind_ok (read_focus hfits)).trans ?_
      rw [if_pos (Tree.ptr_nil)]
      refine (bind_ok (read_focus hfits)).trans ?_
      refine (bind_ok (read_focus hfits)).trans ?_
      refine (bind_ok (read_focus hfits)).trans ?_
      exact bind_ok (transplant_lay .right hfits)
  · obtain ⟨inner, y, cy, ky, yr, rfl, hsides, hminimum⟩ := getMinimum_lay hright
    have hinner : plug (.node x color left key (plug (.node y cy .nil ky yr) inner)) frames =
        plug (.node y cy .nil ky yr) (inner ++ ⟨.right, x, color, key, left⟩ :: frames) := by
      rw [plug_append]
      rfl
    rw [hinner] at h
    obtain ⟨height₁, hy, haccepts₁⟩ := h.split
    rw [Tree.color_node] at hy haccepts₁
    refine ⟨yr, inner ++ ⟨.right, y, color, ky, left⟩ :: frames, cy,
      Balanced.detached .left hy haccepts₁.rename, ?_, fun background hfits ↦ ?_⟩
    · rw [plug_append]
      simp [inorder_plug, Frame.plug, Tree.branch, before_eq_nil hsides]
    · obtain ⟨cell, hrun⟩ := removeTwoChildren_lay hfits hleft
        (hminimum background (⟨.right, x, color, key, left⟩ :: frames) hfits)
      refine ⟨cell, ?_⟩
      unfold detach
      refine (bind_ok (read_focus hfits)).trans ?_
      rw [if_neg (mt (Tree.ptr_eq_nil_iff left).mp hleft)]
      refine (bind_ok (read_focus hfits)).trans ?_
      rw [if_neg (mt (Tree.ptr_eq_nil_iff _).mp hright)]
      rw [hrun]
      cases inner <;> rfl

/-! ### The whole function -/

/-- Deleting the node that was taken out of a tree. -/
theorem deleteNode_keeping {background : State Key} {tree : Tree Key} {x : ℕ}
    {cell nilNode : RBNode Key} (hx : x ∉ tree.addresses) (hfree : background.heap.cell x = none) :
    deleteNode (.node x) (lay (background.keeping x cell nilNode) tree) =
      .ok () (lay { background with nilNode := nilNode, freed := background.freed + 1 } tree) := by
  have hcell : (lay (background.keeping x cell nilNode) tree).heap.cell x = some cell := by
    rw [cell_lay, Tree.cellAt_eq_none hx, cell_keeping, if_pos rfl]
    rfl
  rw [deleteNode, hcell]
  refine congrArg (EStateM.Result.ok ()) (lay_ext (fun other ↦ ?_) rfl rfl rfl rfl rfl rfl)
  rw [Heap.cell_release]
  by_cases hother : other = x
  · rw [if_pos hother, hother, Tree.cellAt_eq_none hx, hfree]
    rfl
  · rw [if_neg hother, cell_lay, cell_keeping, if_neg hother]

/-- The background after a node of the tree was removed. -/
def State.removed (background : State Key) (parent : Ptr) : State Key :=
  { background with
    nilNode := { background.nilNode with parent := parent }
    freed := background.freed + 1
    size := background.size - 1 }

/-- `RemoveOne` takes a node out of a balanced tree and leaves a balanced tree with the rest of
the listing. -/
theorem removeOne_lay {x : ℕ} {color : Color} {left right : Tree Key} {key : Key}
    {frames : List (Frame Key)} {height : ℕ}
    (h : Balanced (plug (.node x color left key right) frames) .black height) :
    ∃ tree height', Balanced tree .black height' ∧
      tree.inorder = before frames ++ (left.inorder ++ right.inorder ++ after frames) ∧
      ∀ background : State Key, Fits background (plug (.node x color left key right) frames) →
        background.nilNode.color = .black →
          ∃ parent, removeOne (.node x)
              (lay background (plug (.node x color left key right) frames)) =
            .ok () (lay (background.removed parent) tree) := by
  obtain ⟨child, frames', missing, hshort, hinorder, hrun⟩ := detach_lay h
  have hmid {background : State Key}
      (hfits : Fits background (plug (.node x color left key right) frames)) :
      ∃ parent, (child = .nil → parent = hole frames') ∧
        removeOne (.node x) (lay background (plug (.node x color left key right) frames)) =
          (if missing = .black then removeFixup child.ptr else pure () : TreeM Key Unit)
            (lay (background.removed parent) (plug child frames')) := by
    obtain ⟨cell, hdetach⟩ := hrun background hfits
    have hfree : background.heap.cell x = none := hfits.free x (by simp [mem_addresses_plug])
    have hanchored : ∃ parent, (child = .nil → parent = hole frames') ∧
        background.nilNode.anchored child (hole frames') =
          { background.nilNode with parent := parent } := by
      cases child with
      | nil => exact ⟨hole frames', fun _ ↦ rfl, rfl⟩
      | node address color left key right =>
        exact ⟨background.nilNode.parent, fun h ↦ absurd h (by simp), rfl⟩
    obtain ⟨parent, hparent, hnil⟩ := hanchored
    refine ⟨parent, hparent, ?_⟩
    unfold removeOne
    rw [if_neg (by simp)]
    refine (bind_ok hdetach).trans ?_
    rw [hnil]
    exact bind_ok (deleteNode_keeping (hfits.detached hinorder).2 hfree)
  cases missing with
  | red =>
    obtain ⟨height', hbalanced⟩ := hshort
    refine ⟨plug child frames', height', hbalanced, hinorder, fun background hfits hnil ↦ ?_⟩
    obtain ⟨parent, -, hrun'⟩ := hmid hfits
    refine ⟨parent, hrun'.trans ?_⟩
    rw [if_neg (by decide), pure_apply]
  | black =>
    obtain ⟨height', hdeficit, haccepts⟩ := hshort
    obtain ⟨tree, height'', htree, hlist, hfixup⟩ := removeFixup_lay hdeficit haccepts
    refine ⟨tree, height'', htree, hlist.trans hinorder, fun background hfits hnil ↦ ?_⟩
    obtain ⟨parent, hparent, hrun'⟩ := hmid hfits
    refine ⟨parent, hrun'.trans ?_⟩
    rw [if_pos rfl]
    obtain ⟨hfits', -⟩ := hfits.detached hinorder
    exact hfixup (background.removed parent) ⟨hfits'.nodup, hfits'.free⟩ hnil hparent

end StudStuff.RedBlackTree
