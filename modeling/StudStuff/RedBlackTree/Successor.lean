import StudStuff.RedBlackTree.RemoveOne
import StudStuff.RedBlackTree.Search

/-!
# Iterators on laid out trees

`GetSuccessor` goes to the entry that follows in the listing (`getSuccessor_lay`): the leftmost
node of the right subtree if there is one, and else the first node above that is reached from its
left. The shortcut of the source for a duplicate of the right child (`Tree.duplicate`) is never
taken when `==` holds between equivalent keys only, because no two keys of a tree are equivalent
(`Tree.Sorted.noShortcut`). `begin` is the first entry of the listing.
-/

set_option autoImplicit false
set_option relaxedAutoImplicit false

namespace StudStuff.RedBlackTree

open Lib

variable {Key : Type} {background : State Key}

/-- A leftmost node is the first entry of the listing. -/
theorem head?_leftmost {inner : List (Frame Key)} (h : ∀ frame ∈ inner, frame.side = .left)
    (address : ℕ) (color : Color) (key : Key) (right : Tree Key) (rest : List (ℕ × Key)) :
    ((plug (.node address color .nil key right) inner).inorder ++ rest).head? =
      some (address, key) := by
  simp [inorder_plug, before_eq_nil h]

/-- The climb to the first node above that is reached from its left. -/
theorem climbRight_lay {focus : Tree Key} {frames : List (Frame Key)} {bound : ℕ}
    (hfits : Fits background (plug focus frames)) (hne : focus ≠ .nil)
    (hbound : frames.length < bound) :
    climbRight .nil bound focus.ptr (hole frames) (lay background (plug focus frames)) =
      .ok (landing .nil (after frames).head?) (lay background (plug focus frames)) := by
  induction frames generalizing focus bound with
  | nil =>
    obtain ⟨bound, rfl⟩ : ∃ count, bound = count + 1 := ⟨bound - 1, by omega⟩
    rw [climbRight, hole_nil, if_pos rfl, pure_apply]
    rfl
  | cons frame rest ih =>
    obtain ⟨bound, rfl⟩ : ∃ count, bound = count + 1 := ⟨bound - 1, by omega⟩
    rw [List.length_cons] at hbound
    rw [climbRight, hole_cons, if_neg (by simp)]
    refine (bind_ok (read_frame hfits)).trans ?_
    cases hside : frame.side with
    | left =>
      have hright : focus.ptr ≠ (RBNode.ofSide .left frame.key frame.color (hole rest) focus.ptr
          frame.sibling.ptr).right := ptr_ne_sibling hfits (Or.inl hne)
      rw [if_neg hright, pure_apply, after, hside]
      rfl
    | right =>
      have hright : focus.ptr = (RBNode.ofSide .right frame.key frame.color (hole rest) focus.ptr
          frame.sibling.ptr).right := rfl
      rw [if_pos hright]
      refine (bind_ok (read_frame hfits)).trans ?_
      have hup := ih (show Fits background (plug (frame.plug focus) rest) from hfits)
        (Tree.branch_ne_nil _ _ _ _ _ _) (show rest.length < bound by omega)
      rw [Frame.plug, Tree.ptr_branch] at hup
      rw [RBNode.ofSide_parent, after, hside]
      exact hup

/-- The right child of the root of a right subtree, when the shortcut takes it for a duplicate of
that root. -/
def Tree.duplicate (eq : Key → Key → Bool) : Tree Key → Option (ℕ × Key)
  | .node _ _ _ key (.node address _ _ key' _) => if eq key' key then some (address, key') else none
  | _ => none

/-- The right child that the shortcut takes for a duplicate. -/
theorem Tree.exists_of_duplicate {eq : Key → Key → Bool} {tree : Tree Key} {entry : ℕ × Key}
    (h : tree.duplicate eq = some entry) :
    ∃ y color left key color' left' right', tree =
      .node y color left key (.node entry.1 color' left' entry.2 right') ∧
        eq entry.2 key = true := by
  cases tree with
  | nil => cases h
  | node y color left key right =>
    cases right with
    | nil => cases h
    | node z color' left' key' right' =>
      rw [duplicate] at h
      split_ifs at h with heq
      cases h
      exact ⟨y, color, left, key, color', left', right', rfl, heq⟩

/-- The duplicate is an entry of the subtree. -/
theorem Tree.mem_of_duplicate {eq : Key → Key → Bool} (tree : Tree Key) {entry : ℕ × Key}
    (h : tree.duplicate eq = some entry) : entry ∈ tree.inorder := by
  obtain ⟨y, color, left, key, color', left', right', rfl, -⟩ := exists_of_duplicate h
  simp

/-- From no node of the tree is the shortcut taken. -/
def Tree.NoShortcut (eq : Key → Key → Bool) (tree : Tree Key) : Prop :=
  ∀ x color left key right frames, tree = plug (.node x color left key right) frames →
    right.duplicate eq = none

/-- In a sorted tree the shortcut is never taken when only equivalent keys are equal. -/
theorem Tree.Sorted.duplicate_eq_none {params : Params Key} [params.Lawful] {tree : Tree Key}
    (hsorted : tree.Sorted params.comp) : tree.duplicate params.eq = none := by
  rw [Option.eq_none_iff_forall_ne_some]
  intro entry hduplicate
  obtain ⟨y, color, left, key, color', left', right', rfl, heq⟩ := exists_of_duplicate hduplicate
  have hlt : params.comp key entry.2 = true := hsorted.of_node.2.2.2 entry (by simp)
  have hequivalent : params.comp entry.2 key = false ∧ params.comp key entry.2 = false :=
    Params.Lawful.eq_equivalent entry.2 key heq
  rw [hlt] at hequivalent
  cases hequivalent.2

/-- The subtree at a position of a sorted tree is sorted. -/
theorem Tree.Sorted.focus {comp : Key → Key → Bool} {focus : Tree Key} {frames : List (Frame Key)}
    (h : (plug focus frames).Sorted comp) : focus.Sorted comp := by
  rw [Sorted, keys, inorder_plug, List.map_append, List.map_append, List.pairwise_append,
    List.pairwise_append] at h
  exact h.2.1.1

/-- A sorted tree has no shortcut when only equivalent keys are equal. -/
theorem Tree.Sorted.noShortcut {params : Params Key} [params.Lawful] {tree : Tree Key}
    (hsorted : tree.Sorted params.comp) : tree.NoShortcut params.eq := by
  rintro x color left key right frames rfl
  exact hsorted.focus.of_node.2.1.duplicate_eq_none

/-- The test of the shortcut. -/
theorem hasRightDuplicate_lay {params : Params Key} {address : ℕ} {color : Color}
    {left right : Tree Key} {key : Key} {frames : List (Frame Key)}
    (hfits : Fits background (plug (.node address color left key right) frames)) :
    hasRightDuplicate params .nil (.node address)
        (lay background (plug (.node address color left key right) frames)) =
      .ok ((Tree.node address color left key right).duplicate params.eq).isSome
        (lay background (plug (.node address color left key right) frames)) := by
  unfold hasRightDuplicate
  refine (bind_ok (read_focus hfits)).trans ?_
  cases right with
  | nil =>
    rw [if_pos Tree.ptr_nil, pure_apply]
    rfl
  | node above color' left' key' right' =>
    rw [if_neg (by simp)]
    refine (bind_ok (read_focus hfits)).trans ?_
    refine (bind_ok (read_focus (show Fits background (plug (.node above color' left' key' right')
      (⟨.right, address, color, key, left⟩ :: frames)) from hfits))).trans ?_
    refine (bind_ok (read_focus hfits)).trans ?_
    rw [pure_apply, Tree.duplicate]
    cases params.eq key' key <;> rfl

/-- `GetSuccessor` goes to the next entry of the listing unless the shortcut applies. -/
theorem getSuccessor_lay {params : Params Key} {x : ℕ} {color : Color} {left right : Tree Key}
    {key : Key} {frames : List (Frame Key)}
    (hfits : Fits background (plug (.node x color left key right) frames)) :
    getSuccessor params .nil (.node x)
        (lay background (plug (.node x color left key right) frames)) =
      .ok (landing .nil ((right.duplicate params.eq).or (right.inorder ++ after frames).head?))
        (lay background (plug (.node x color left key right) frames)) := by
  unfold getSuccessor
  rw [if_neg (by simp)]
  refine (bind_ok (read_focus hfits)).trans ?_
  cases hright : right with
  | nil =>
    subst hright
    have hbound := length_frames_le_live hfits
    rw [if_neg (by simp)]
    refine (bind_ok (fuel_apply _)).trans ?_
    refine (bind_ok (read_focus hfits)).trans ?_
    exact climbRight_lay (show Fits background (plug (.node x color left key .nil) frames)
      from hfits) (by simp) (by omega)
  | node above color' left' key' right' =>
    have hne : right ≠ .nil := by simp [hright]
    have hsize := length_frames_le_size right (⟨.right, x, color, key, left⟩ :: frames)
    have hlive : (plug right (⟨.right, x, color, key, left⟩ :: frames)).size ≤
        (lay background (plug (.node x color left key right) frames)).heap.live.card :=
      size_le_live hfits
    obtain ⟨inner, y, cy, ky, yr, hshape, hsides, hrun⟩ := descendLeft_lay hne
    have hdescend := hrun background (⟨.right, x, color, key, left⟩ :: frames) hfits
      ((lay background (plug (.node x color left key right) frames)).heap.live.card + 2) (by omega)
    have hfits' : Fits background (plug (.node above color' left' key' right')
        (⟨.right, x, color, key, left⟩ :: frames)) := hright ▸ hfits
    rw [← hright, if_pos (by simp [Tree.ptr_eq_nil_iff, hne])]
    refine (bind_ok (read_focus hfits)).trans ?_
    rw [hright] at hfits hdescend ⊢
    refine (bind_ok (hasRightDuplicate_lay hfits')).trans ?_
    cases hduplicate : (Tree.node above color' left' key' right').duplicate params.eq with
    | none =>
      rw [Option.isSome_none, if_neg Bool.false_ne_true]
      refine (bind_ok (fuel_apply _)).trans ?_
      refine hdescend.trans ?_
      rw [← hright, hshape, Option.none_or, head?_leftmost hsides]
      rfl
    | some entry =>
      rw [Option.isSome_some, if_pos rfl]
      refine (bind_ok (read_focus hfits')).trans ?_
      rw [pure_apply]
      obtain ⟨_, _, _, _, _, _, _, htree, -⟩ := Tree.exists_of_duplicate hduplicate
      cases htree
      rfl

/-- `operator++` from an entry of a tree, whatever `==` is. -/
theorem increment_run {params : Params Key} {x : ℕ} {color : Color} {left right : Tree Key}
    {key : Key} {frames : List (Frame Key)}
    (hfits : Fits background (plug (.node x color left key right) frames)) :
    (Iterator.mk (.node x) .nil).increment params
        (lay background (plug (.node x color left key right) frames)) =
      .ok ⟨landing .nil ((right.duplicate params.eq).or (right.inorder ++ after frames).head?),
          .nil⟩
        (lay background (plug (.node x color left key right) frames)) := by
  unfold Iterator.increment
  refine (bind_ok (getSuccessor_lay hfits)).trans ?_
  rw [pure_apply]

/-- `begin` is the first entry of the listing. -/
theorem begin_lay {tree : Tree Key} (hfits : Fits background tree) :
    begin (lay background tree) =
      .ok ⟨landing .nil tree.inorder.head?, .nil⟩ (lay background tree) := by
  unfold begin
  refine (bind_ok (get_apply _)).trans ?_
  rw [root_lay]
  by_cases hne : tree = .nil
  · subst hne
    rfl
  · obtain ⟨inner, y, color, key, right, hshape, hsides, hrun⟩ := getMinimum_lay hne
    refine (bind_ok (hrun background [] hfits)).trans ?_
    have hhead := head?_leftmost hsides y color key right []
    rw [List.append_nil, ← hshape] at hhead
    rw [pure_apply, hhead]
    rfl

end StudStuff.RedBlackTree
