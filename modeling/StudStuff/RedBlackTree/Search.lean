import StudStuff.Lib.OrderedSet
import StudStuff.RedBlackTree.Execution

/-!
# Order of keys and the searching descents

`Tree.Sorted` says that the keys increase along the listing of a tree, and `Tree.Ordered` says it
node by node, in the words of a search tree; `Tree.ordered_iff_sorted` connects them. The three
descents from the root return the first entry of the listing with a property: an equivalent key
(`findNode_lay`), a key not below (`lowerBound_lay`), a key above (`upperBound_lay`).
-/

set_option autoImplicit false
set_option relaxedAutoImplicit false

namespace StudStuff.RedBlackTree

open Lib

variable {Key : Type}

/-! ### Ordered trees -/

/-- The keys increase from left to right. -/
def Tree.Sorted (comp : Key → Key → Bool) (tree : Tree Key) : Prop :=
  tree.keys.Pairwise fun first second ↦ comp first second = true

/-- Every key in the left subtree of a node is below the key of the node, and every key in its
right subtree is above it. -/
def Tree.Ordered (comp : Key → Key → Bool) : Tree Key → Prop
  | nil => True
  | node _ _ left key right =>
    (∀ other ∈ left.keys, comp other key = true) ∧ (∀ other ∈ right.keys, comp key other = true) ∧
      left.Ordered comp ∧ right.Ordered comp

@[simp] theorem Tree.keys_node (address : ℕ) (color : Color) (left : Tree Key) (key : Key)
    (right : Tree Key) : (node address color left key right).keys =
      left.keys ++ key :: right.keys := by
  simp [keys]

/-- The two notions of order agree. -/
theorem Tree.ordered_iff_sorted {comp : Key → Key → Bool}
    [IsStrictWeakOrder Key fun first second ↦ comp first second = true] (tree : Tree Key) :
    tree.Ordered comp ↔ tree.Sorted comp := by
  induction tree with
  | nil => simp [Ordered, Sorted, keys]
  | node address color left key right ihl ihr =>
    simp only [Ordered, Sorted, keys_node, List.pairwise_append, List.pairwise_cons,
      List.mem_cons] at ihl ihr ⊢
    rw [ihl, ihr]
    constructor
    · rintro ⟨hleft, hright, hl, hr⟩
      refine ⟨hl, ⟨hright, hr⟩, ?_⟩
      rintro first hfirst second (rfl | hsecond)
      · exact hleft first hfirst
      · exact weakOrder_trans (hleft first hfirst) (hright second hsecond)
    · rintro ⟨hl, ⟨hright, hr⟩, hcross⟩
      exact ⟨fun first hfirst ↦ hcross first hfirst key (Or.inl rfl), hright, hl, hr⟩

/-- The keys around the root of a sorted tree. -/
theorem Tree.Sorted.of_node {comp : Key → Key → Bool} {address : ℕ} {color : Color}
    {left right : Tree Key} {key : Key} (h : (node address color left key right).Sorted comp) :
    left.Sorted comp ∧ right.Sorted comp ∧ (∀ entry ∈ left.inorder, comp entry.2 key = true) ∧
      ∀ entry ∈ right.inorder, comp key entry.2 = true := by
  simp only [Sorted, keys_node, List.pairwise_append, List.pairwise_cons, List.mem_cons] at h
  refine ⟨h.1, h.2.1.2, fun entry hmem ↦ ?_, fun entry hmem ↦ ?_⟩
  · exact h.2.2 entry.2 (List.mem_map_of_mem hmem) key (Or.inl rfl)
  · exact h.2.1.1 entry.2 (List.mem_map_of_mem hmem)

/-! ### Where a search lands -/

/-- The node of an entry of the listing, and a given pointer when there is none. -/
def landing (result : Ptr) : Option (ℕ × Key) → Ptr
  | none => result
  | some entry => .node entry.1

section Split

variable {property : ℕ × Key → Bool} {first second : List (ℕ × Key)} {entry : ℕ × Key}

theorem find?_split_left (h : ∀ other ∈ entry :: second, property other = false) :
    (first ++ entry :: second).find? property = first.find? property := by
  have hnone : (entry :: second).find? property = none := by simpa using h
  rw [List.find?_append, hnone, Option.or_none]

theorem find?_split_right (h : ∀ other ∈ first, property other = false)
    (hentry : property entry = false) :
    (first ++ entry :: second).find? property = second.find? property := by
  have hnone : first.find? property = none := by simpa using h
  rw [List.find?_append, hnone, Option.none_or, List.find?_cons, hentry]

theorem find?_split_self (hentry : property entry = true) :
    (first ++ entry :: second).find? property = (first.find? property).or (some entry) := by
  rw [List.find?_append, List.find?_cons, hentry]

end Split

/-! ### The descents -/

section Descents

variable {params : Params Key}
  [IsStrictWeakOrder Key fun first second ↦ params.comp first second = true]
  {background : State Key} {key : Key}

/-- `FindNode` below a focus. -/
theorem findNodeLoop_lay {tree : Tree Key} {frames : List (Frame Key)} {bound : ℕ}
    (hsorted : tree.Sorted params.comp) (hfits : Fits background (plug tree frames))
    (hbound : tree.size < bound) :
    findNodeLoop params key bound tree.ptr (lay background (plug tree frames)) =
      .ok (landing .nil (tree.inorder.find? fun entry ↦ equivalent params.comp key entry.2))
        (lay background (plug tree frames)) := by
  induction tree generalizing frames bound with
  | nil =>
    obtain ⟨bound, rfl⟩ : ∃ count, bound = count + 1 := ⟨bound - 1, by omega⟩
    rw [findNodeLoop, Tree.ptr_nil, if_pos rfl, pure_apply]
    rfl
  | node address color left here right ihl ihr =>
    obtain ⟨bound, rfl⟩ : ∃ count, bound = count + 1 := ⟨bound - 1, by omega⟩
    rw [Tree.size] at hbound
    obtain ⟨hl, hr, hbelow, habove⟩ := hsorted.of_node
    rw [findNodeLoop, Tree.ptr_node, if_neg (by simp)]
    refine (bind_ok (read_focus hfits)).trans ?_
    rw [Tree.inorder_node]
    by_cases hlt : params.comp key here = true
    · rw [if_pos hlt]
      refine (bind_ok (read_focus hfits)).trans ?_
      refine (ihl hl (show Fits background (plug left
        (⟨.left, address, color, here, right⟩ :: frames)) from hfits) (by omega)).trans ?_
      rw [find?_split_left fun other hmem ↦ ?_]
      · rfl
      · have hother : params.comp key other.2 = true := by
          rcases List.mem_cons.mp hmem with rfl | hmem
          · exact hlt
          · exact weakOrder_trans hlt (habove other hmem)
        simp [equivalent, hother]
    · rw [if_neg hlt]
      by_cases hgt : params.comp here key = true
      · rw [if_pos hgt]
        refine (bind_ok (read_focus hfits)).trans ?_
        refine (ihr hr (show Fits background (plug right
        (⟨.right, address, color, here, left⟩ :: frames)) from hfits) (by omega)).trans ?_
        rw [find?_split_right fun other hmem ↦ ?_]
        · rfl
        · simp [equivalent, hgt]
        · simp [equivalent, weakOrder_trans (hbelow other hmem) hgt]
      · rw [if_neg hgt, pure_apply, find?_split_self (by simp [equivalent, hlt, hgt])]
        have hnone :
            left.inorder.find? (fun entry ↦ equivalent params.comp key entry.2) = none := by
          rw [List.find?_eq_none]
          intro other hmem hequivalent
          have hlt' := lt_of_lt_of_equivalent (hbelow other hmem)
            (show equivalent params.comp here key = true by simp [equivalent, hlt, hgt])
          rw [equivalent_iff, hlt'] at hequivalent
          cases hequivalent.2
        rw [hnone]
        rfl

/-- `LowerBoundImpl` below a focus. -/
theorem lowerBoundLoop_lay {tree : Tree Key} {frames : List (Frame Key)} {bound : ℕ} {result : Ptr}
    (hsorted : tree.Sorted params.comp) (hfits : Fits background (plug tree frames))
    (hbound : tree.size < bound) :
    lowerBoundLoop params key bound tree.ptr result (lay background (plug tree frames)) =
      .ok (landing result (tree.inorder.find? fun entry ↦ !params.comp entry.2 key))
        (lay background (plug tree frames)) := by
  induction tree generalizing frames bound result with
  | nil =>
    obtain ⟨bound, rfl⟩ : ∃ count, bound = count + 1 := ⟨bound - 1, by omega⟩
    rw [lowerBoundLoop, Tree.ptr_nil, if_pos rfl, pure_apply]
    rfl
  | node address color left here right ihl ihr =>
    obtain ⟨bound, rfl⟩ : ∃ count, bound = count + 1 := ⟨bound - 1, by omega⟩
    rw [Tree.size] at hbound
    obtain ⟨hl, hr, hbelow, -⟩ := hsorted.of_node
    rw [lowerBoundLoop, Tree.ptr_node, if_neg (by simp)]
    refine (bind_ok (read_focus hfits)).trans ?_
    rw [Tree.inorder_node]
    by_cases hlt : params.comp here key = true
    · rw [if_pos hlt]
      refine (bind_ok (read_focus hfits)).trans ?_
      refine (ihr hr (show Fits background (plug right
        (⟨.right, address, color, here, left⟩ :: frames)) from hfits) (by omega)).trans ?_
      rw [find?_split_right fun other hmem ↦ ?_]
      · rfl
      · simp [hlt]
      · simp [weakOrder_trans (hbelow other hmem) hlt]
    · rw [if_neg hlt]
      refine (bind_ok (read_focus hfits)).trans ?_
      refine (ihl hl (show Fits background (plug left
        (⟨.left, address, color, here, right⟩ :: frames)) from hfits) (by omega)).trans ?_
      rw [find?_split_self (by simp [hlt])]
      cases left.inorder.find? fun entry ↦ !params.comp entry.2 key <;> rfl

/-- `UpperBoundImpl` below a focus. -/
theorem upperBoundLoop_lay {tree : Tree Key} {frames : List (Frame Key)} {bound : ℕ} {result : Ptr}
    (hsorted : tree.Sorted params.comp) (hfits : Fits background (plug tree frames))
    (hbound : tree.size < bound) :
    upperBoundLoop params key bound tree.ptr result (lay background (plug tree frames)) =
      .ok (landing result (tree.inorder.find? fun entry ↦ params.comp key entry.2))
        (lay background (plug tree frames)) := by
  induction tree generalizing frames bound result with
  | nil =>
    obtain ⟨bound, rfl⟩ : ∃ count, bound = count + 1 := ⟨bound - 1, by omega⟩
    rw [upperBoundLoop, Tree.ptr_nil, if_pos rfl, pure_apply]
    rfl
  | node address color left here right ihl ihr =>
    obtain ⟨bound, rfl⟩ : ∃ count, bound = count + 1 := ⟨bound - 1, by omega⟩
    rw [Tree.size] at hbound
    obtain ⟨hl, hr, hbelow, -⟩ := hsorted.of_node
    rw [upperBoundLoop, Tree.ptr_node, if_neg (by simp)]
    refine (bind_ok (read_focus hfits)).trans ?_
    rw [Tree.inorder_node]
    by_cases hlt : params.comp key here = true
    · rw [if_pos hlt]
      refine (bind_ok (read_focus hfits)).trans ?_
      refine (ihl hl (show Fits background (plug left
        (⟨.left, address, color, here, right⟩ :: frames)) from hfits) (by omega)).trans ?_
      rw [find?_split_self hlt]
      cases left.inorder.find? fun entry ↦ params.comp key entry.2 <;> rfl
    · rw [if_neg hlt]
      refine (bind_ok (read_focus hfits)).trans ?_
      refine (ihr hr (show Fits background (plug right
        (⟨.right, address, color, here, left⟩ :: frames)) from hfits) (by omega)).trans ?_
      rw [find?_split_right fun other hmem ↦ ?_]
      · rfl
      · simpa using hlt
      · by_contra hother
        exact hlt (weakOrder_trans (by simpa using hother) (hbelow other hmem))

variable {tree : Tree Key}

/-- `FindNode` returns the entry with an equivalent key. -/
theorem findNode_lay (hsorted : tree.Sorted params.comp) (hfits : Fits background tree) :
    findNode params key (lay background tree) =
      .ok (landing .nil (tree.inorder.find? fun entry ↦ equivalent params.comp key entry.2))
        (lay background tree) := by
  have hlive := size_le_live hfits
  unfold findNode
  refine (bind_ok (fuel_apply _)).trans ?_
  refine (bind_ok (get_apply _)).trans ?_
  exact findNodeLoop_lay hsorted (show Fits background (plug tree []) from hfits) (by omega)

/-- `LowerBound` returns the first entry that is not below the key. -/
theorem lowerBound_lay (hsorted : tree.Sorted params.comp) (hfits : Fits background tree) :
    lowerBound params key (lay background tree) =
      .ok ⟨landing .nil (tree.inorder.find? fun entry ↦ !params.comp entry.2 key), .nil⟩
        (lay background tree) := by
  have hlive := size_le_live hfits
  have hrun : lowerBoundImpl params key (lay background tree) =
      .ok (landing .nil (tree.inorder.find? fun entry ↦ !params.comp entry.2 key))
        (lay background tree) := by
    unfold lowerBoundImpl
    refine (bind_ok (fuel_apply _)).trans ?_
    refine (bind_ok (get_apply _)).trans ?_
    exact lowerBoundLoop_lay hsorted (show Fits background (plug tree []) from hfits) (by omega)
  unfold lowerBound
  refine (bind_ok hrun).trans ?_
  rw [pure_apply]
  cases tree.inorder.find? fun entry ↦ !params.comp entry.2 key <;> rfl

/-- `UpperBound` returns the first entry above the key. -/
theorem upperBound_lay (hsorted : tree.Sorted params.comp) (hfits : Fits background tree) :
    upperBound params key (lay background tree) =
      .ok ⟨landing .nil (tree.inorder.find? fun entry ↦ params.comp key entry.2), .nil⟩
        (lay background tree) := by
  have hlive := size_le_live hfits
  have hrun : upperBoundImpl params key (lay background tree) =
      .ok (landing .nil (tree.inorder.find? fun entry ↦ params.comp key entry.2))
        (lay background tree) := by
    unfold upperBoundImpl
    refine (bind_ok (fuel_apply _)).trans ?_
    refine (bind_ok (get_apply _)).trans ?_
    exact upperBoundLoop_lay hsorted (show Fits background (plug tree []) from hfits) (by omega)
  unfold upperBound
  refine (bind_ok hrun).trans ?_
  rw [pure_apply]
  cases tree.inorder.find? fun entry ↦ params.comp key entry.2 <;> rfl

end Descents

end StudStuff.RedBlackTree
