import StudStuff.RedBlackTree.Successor

/-!
# `Erase` and `Remove` on laid out trees

`Erase` at a node takes its entry out of the listing and returns the entry that followed, unless the
shortcut of `GetSuccessor` applies (`erase_run`). `Remove` computes the range of equivalent keys
before it erases anything. In a sorted tree that range has at most one entry, and the entry after it
is what `Erase` returns, so the loop stops after one erasure although `last` was computed in the old
tree (`remove_present`, `remove_absent`).
-/

set_option autoImplicit false
set_option relaxedAutoImplicit false

namespace StudStuff.RedBlackTree

open Lib

variable {Key : Type} {params : Params Key}

/-! ### Positions -/

theorem before_append (inner outer : List (Frame Key)) :
    before (inner ++ outer) = before outer ++ before inner := by
  induction inner with
  | nil => rw [List.nil_append, before, List.append_nil]
  | cons frame rest ih =>
    cases hside : frame.side with
    | left => simpa only [List.cons_append, before, hside] using ih
    | right => simp only [List.cons_append, before, hside, ih, List.append_assoc]

theorem after_append (inner outer : List (Frame Key)) :
    after (inner ++ outer) = after inner ++ after outer := by
  induction inner with
  | nil => rfl
  | cons frame rest ih =>
    cases hside : frame.side with
    | left => simp only [List.cons_append, after, hside, ih, List.append_assoc]
    | right => simpa only [List.cons_append, after, hside] using ih

/-- A cut of the listing at an entry is a position of the tree. -/
theorem exists_focus_of_cut {tree : Tree Key} {smaller greater : List (ℕ × Key)}
    {entry : ℕ × Key} (hcut : tree.inorder = smaller ++ entry :: greater) :
    ∃ color left right frames, tree = plug (.node entry.1 color left entry.2 right) frames ∧
      before frames ++ left.inorder = smaller ∧ right.inorder ++ after frames = greater := by
  induction tree generalizing smaller greater with
  | nil => exact absurd hcut (by simp)
  | node address color left key right ihl ihr =>
    rw [Tree.inorder_node] at hcut
    rcases List.append_eq_append_iff.mp hcut with ⟨_ | ⟨first, rest⟩, hsmaller, hrest⟩ |
      ⟨_ | ⟨first, rest⟩, hleft, hrest⟩
    · obtain ⟨rfl, rfl⟩ := List.cons.inj hrest
      exact ⟨color, left, right, [], rfl, by simp [hsmaller, before], by simp [after]⟩
    · obtain ⟨rfl, hright⟩ := List.cons.inj hrest
      obtain ⟨color', left', right', frames, rfl, rfl, rfl⟩ := ihr hright
      refine ⟨color', left', right', frames ++ [⟨.right, address, color, key, left⟩], ?_, ?_, ?_⟩
      · rw [plug_append]
        rfl
      · simp [hsmaller, before_append, before]
      · simp [after_append, after]
    · obtain ⟨rfl, rfl⟩ := List.cons.inj hrest
      exact ⟨color, left, right, [], rfl, by simp [hleft, before], by simp [after]⟩
    · obtain ⟨rfl, hgreater⟩ := List.cons.inj hrest
      obtain ⟨color', left', right', frames, rfl, rfl, rfl⟩ := ihl hleft
      refine ⟨color', left', right', frames ++ [⟨.left, address, color, key, right⟩], ?_, ?_, ?_⟩
      · rw [plug_append]
        rfl
      · simp [before_append, before]
      · simp [hgreater, after_append, after]

/-- Every entry of a listing is a position of the tree. -/
theorem exists_focus {tree : Tree Key} {entry : ℕ × Key} (h : entry ∈ tree.inorder) :
    ∃ color left right frames, tree = plug (.node entry.1 color left entry.2 right) frames := by
  obtain ⟨smaller, greater, hcut⟩ := List.append_of_mem h
  obtain ⟨color, left, right, frames, htree, -, -⟩ := exists_focus_of_cut hcut
  exact ⟨color, left, right, frames, htree⟩

/-- The keys of a sorted tree as an ordered set. -/
def Tree.orderedSet {comp : Key → Key → Bool} (tree : Tree Key) (h : tree.Sorted comp) :
    OrderedSet comp :=
  ⟨tree.keys, h⟩

/-! ### Erasing a node -/

/-- `Erase` at a node, whatever `==` is. -/
theorem erase_run {x : ℕ} {color : Color} {left right : Tree Key} {key : Key}
    {frames : List (Frame Key)} {height : ℕ}
    (h : Balanced (plug (.node x color left key right) frames) .black height) :
    ∃ tree height', Balanced tree .black height' ∧
      tree.inorder = before frames ++ (left.inorder ++ right.inorder ++ after frames) ∧
      ∀ background : State Key, Fits background (plug (.node x color left key right) frames) →
        background.nilNode.color = .black → ∀ sentinel,
          ∃ parent, erase params ⟨.node x, sentinel⟩
              (lay background (plug (.node x color left key right) frames)) =
            .ok ⟨landing .nil
                ((right.duplicate params.eq).or (right.inorder ++ after frames).head?), .nil⟩
              (lay (background.removed parent) tree) := by
  obtain ⟨tree, height', htree, hlist, hrun⟩ := removeOne_lay h
  refine ⟨tree, height', htree, hlist, fun background hfits hnil sentinel ↦ ?_⟩
  obtain ⟨parent, hremove⟩ := hrun background hfits hnil
  refine ⟨parent, ?_⟩
  unfold erase
  rw [if_neg (by simp [endIterator])]
  refine (bind_ok (increment_run hfits)).trans ?_
  exact bind_ok hremove

/-- `Erase` at the end. -/
theorem erase_end (s : State Key) : erase params endIterator s = .ok endIterator s := by
  unfold erase
  rw [if_pos rfl, pure_apply]

/-! ### Removing a key -/

theorem find?_congr {α : Type*} {first second : α → Bool} {list : List α}
    (h : ∀ element ∈ list, first element = second element) :
    list.find? first = list.find? second := by
  induction list with
  | nil => rfl
  | cons element rest ih =>
    rw [List.find?_cons, List.find?_cons, h element (by simp),
      ih fun other hmem ↦ h other (List.mem_cons_of_mem _ hmem)]

section Removal

variable [IsStrictWeakOrder Key fun first second ↦ params.comp first second = true]
  {background : State Key} {tree : Tree Key} {key : Key}

/-- `Remove` looks for the range of the key, and erases it. -/
theorem remove_range (hsorted : tree.Sorted params.comp) (hfits : Fits background tree) :
    remove params key (lay background tree) =
      removeLoop params
        ⟨landing .nil (tree.inorder.find? fun entry ↦ params.comp key entry.2), .nil⟩
        ((lay background tree).heap.live.card + 2)
        ⟨landing .nil (tree.inorder.find? fun entry ↦ !params.comp entry.2 key), .nil⟩ 0
        (lay background tree) := by
  unfold remove equalRange
  simp only [bind_assoc]
  refine (bind_ok (lowerBound_lay hsorted hfits)).trans ?_
  refine (bind_ok (upperBound_lay hsorted hfits)).trans ?_
  rw [pure_bind]
  exact bind_ok (fuel_apply _)

/-- `Remove` of a key without an equivalent one changes nothing. -/
theorem remove_absent (hsorted : tree.Sorted params.comp) (hfits : Fits background tree)
    (habsent : ∀ entry ∈ tree.inorder, equivalent params.comp key entry.2 = false) :
    remove params key (lay background tree) = .ok 0 (lay background tree) := by
  have hsame : (tree.inorder.find? fun entry ↦ !params.comp entry.2 key) =
      tree.inorder.find? fun entry ↦ params.comp key entry.2 := by
    refine find?_congr fun entry hmem ↦ ?_
    have hne := habsent entry hmem
    have hasymm : params.comp key entry.2 = true → params.comp entry.2 key = false :=
      weakOrder_asymm
    rw [equivalent] at hne
    cases hlt : params.comp key entry.2 <;> cases hgt : params.comp entry.2 key <;> simp_all
  rw [remove_range hsorted hfits, removeLoop, hsame, if_neg (by simp), pure_apply]

/-- `Remove` of a key with an equivalent one does what `Erase` does there, when that returns the
entry that followed. -/
theorem remove_of_erase {smaller greater : List (ℕ × Key)} {entry : ℕ × Key} {s' : State Key}
    (hsorted : tree.Sorted params.comp) (hfits : Fits background tree)
    (hcut : tree.inorder = smaller ++ entry :: greater)
    (hentry : equivalent params.comp key entry.2 = true)
    (herase : erase params ⟨.node entry.1, .nil⟩ (lay background tree) =
      .ok ⟨landing .nil greater.head?, .nil⟩ s') :
    remove params key (lay background tree) = .ok 1 s' := by
  have hkeys : (tree.orderedSet hsorted).elements =
      smaller.map Prod.snd ++ entry.2 :: greater.map Prod.snd := by
    simp [Tree.orderedSet, Tree.keys, hcut]
  obtain ⟨hsmaller, hgreater⟩ := OrderedSet.cut_of_equivalent hkeys hentry
  rw [equivalent_iff] at hentry
  have hfirst : (tree.inorder.find? fun other ↦ !params.comp other.2 key) = some entry := by
    rw [hcut, find?_split_self (by simp [hentry.2]), List.find?_eq_none.mpr, Option.none_or]
    intro other hmem
    simpa using hsmaller other.2 (List.mem_map_of_mem hmem)
  have hlast : (tree.inorder.find? fun other ↦ params.comp key other.2) = greater.head? := by
    rw [hcut, find?_split_right (fun other hmem ↦ ?_) hentry.1]
    · cases greater with
      | nil => rfl
      | cons next rest =>
        rw [List.find?_cons, hgreater next.2 (by simp)]
        rfl
    · exact weakOrder_asymm (hsmaller other.2 (List.mem_map_of_mem hmem))
  have hne : Ptr.node entry.1 ≠ landing .nil greater.head? := by
    intro heq
    have hnodup := hfits.nodup
    rw [Tree.addresses, hcut] at hnodup
    cases greater with
    | nil => cases heq
    | cons next rest =>
      have haddress : entry.1 = next.1 := Ptr.node.inj heq
      simp [haddress, List.nodup_append] at hnodup
  rw [remove_range hsorted hfits, removeLoop, hfirst, hlast,
    if_pos (by simpa [landing] using hne)]
  refine (bind_ok herase).trans ?_
  rw [removeLoop, if_neg (by simp), pure_apply]

end Removal

/-- `Remove` of a key with an equivalent one erases that one. -/
theorem remove_present [IsStrictWeakOrder Key fun first second ↦ params.comp first second = true]
    {x : ℕ} {color : Color} {left right : Tree Key}
    {here key : Key} {frames : List (Frame Key)} {height : ℕ}
    (h : Balanced (plug (.node x color left here right) frames) .black height)
    (hsorted : (plug (.node x color left here right) frames).Sorted params.comp)
    (hplain : right.duplicate params.eq = none)
    (hhere : equivalent params.comp key here = true) :
    ∃ tree height', Balanced tree .black height' ∧
      tree.inorder = before frames ++ (left.inorder ++ right.inorder ++ after frames) ∧
      ∀ background : State Key, Fits background (plug (.node x color left here right) frames) →
        background.nilNode.color = .black →
          ∃ parent, remove params key
              (lay background (plug (.node x color left here right) frames)) =
            .ok 1 (lay (background.removed parent) tree) := by
  obtain ⟨tree, height', htree, hlist, hrun⟩ := erase_run h
  refine ⟨tree, height', htree, hlist, fun background hfits hnil ↦ ?_⟩
  obtain ⟨parent, herase⟩ := hrun background hfits hnil .nil
  rw [hplain, Option.none_or] at herase
  refine ⟨parent, ?_⟩
  have hcut : (plug (.node x color left here right) frames).inorder =
      (before frames ++ left.inorder) ++ (x, here) :: (right.inorder ++ after frames) := by
    simp [inorder_plug]
  exact remove_of_erase hsorted hfits hcut hhere herase

end StudStuff.RedBlackTree
