import StudStuff.RedBlackTree.Iteration

/-!
# Iterating backwards

`GetPredecessor` mirrors `GetSuccessor` without the shortcut: it goes to the entry before in the
listing (`Laid.decrement`). From the end it goes nowhere, because the first test of the source
returns the sentinel for the sentinel. So `--` undoes `++` everywhere but at the greatest key
(`roundTrips_iff`), and no walk backwards ever leaves the end (`backward_iteration`).
-/

set_option autoImplicit false
set_option relaxedAutoImplicit false

namespace StudStuff.RedBlackTree

open Lib

variable {Key : Type} {params : Params Key}

/-! ### The entry before -/

theorem Tree.inorder_ne_nil (tree : Tree Key) (hne : tree ≠ .nil) : tree.inorder ≠ [] := by
  cases tree with
  | nil => exact absurd rfl hne
  | node address color left key right => simp

section Layout

variable {background : State Key}

/-- The rightmost node of a subtree is the last entry of its listing. -/
theorem descendRight_lay {tree : Tree Key} {frames : List (Frame Key)} {bound : ℕ}
    (hne : tree ≠ .nil) (hfits : Fits background (plug tree frames)) (hbound : tree.size ≤ bound) :
    descendRight .nil bound tree.ptr (lay background (plug tree frames)) =
      .ok (landing .nil tree.inorder.getLast?) (lay background (plug tree frames)) := by
  induction tree generalizing frames bound with
  | nil => exact absurd rfl hne
  | node address color left key right ihl ihr =>
    rw [Tree.size] at hbound
    obtain ⟨bound, rfl⟩ : ∃ count, bound = count + 1 := ⟨bound - 1, by omega⟩
    rw [descendRight, Tree.ptr_node]
    refine (bind_ok (read_focus hfits)).trans ?_
    by_cases hright : right = .nil
    · subst hright
      rw [if_neg (by simp), pure_apply, Tree.inorder_node, Tree.inorder_nil,
        List.getLast?_concat]
      rfl
    · rw [if_pos (mt (Tree.ptr_eq_nil_iff right).mp hright)]
      refine (bind_ok (read_focus hfits)).trans ?_
      refine (ihr hright (show Fits background (plug right
        (⟨.right, address, color, key, left⟩ :: frames)) from hfits) (by omega)).trans ?_
      have hlast : (Tree.node address color left key right).inorder.getLast? =
          right.inorder.getLast? := by
        rw [Tree.inorder_node, List.append_cons]
        exact List.getLast?_append_of_ne_nil _ (right.inorder_ne_nil hright)
      rw [hlast]
      rfl

/-- The climb to the first node above that is reached from its right. -/
theorem climbLeft_lay {focus : Tree Key} {frames : List (Frame Key)} {bound : ℕ}
    (hfits : Fits background (plug focus frames)) (hne : focus ≠ .nil)
    (hbound : frames.length < bound) :
    climbLeft .nil bound focus.ptr (hole frames) (lay background (plug focus frames)) =
      .ok (landing .nil (before frames).getLast?) (lay background (plug focus frames)) := by
  induction frames generalizing focus bound with
  | nil =>
    obtain ⟨bound, rfl⟩ : ∃ count, bound = count + 1 := ⟨bound - 1, by omega⟩
    rw [climbLeft, hole_nil, if_pos rfl, pure_apply]
    rfl
  | cons frame rest ih =>
    obtain ⟨bound, rfl⟩ : ∃ count, bound = count + 1 := ⟨bound - 1, by omega⟩
    rw [List.length_cons] at hbound
    rw [climbLeft, hole_cons, if_neg (by simp)]
    refine (bind_ok (read_frame hfits)).trans ?_
    cases hside : frame.side with
    | left =>
      have hleft : focus.ptr = (RBNode.ofSide .left frame.key frame.color (hole rest) focus.ptr
          frame.sibling.ptr).left := rfl
      rw [if_pos hleft]
      refine (bind_ok (read_frame hfits)).trans ?_
      have hup := ih (show Fits background (plug (frame.plug focus) rest) from hfits)
        (Tree.branch_ne_nil _ _ _ _ _ _) (show rest.length < bound by omega)
      rw [Frame.plug, Tree.ptr_branch] at hup
      rw [RBNode.ofSide_parent, before, hside]
      exact hup
    | right =>
      have hleft : focus.ptr ≠ (RBNode.ofSide .right frame.key frame.color (hole rest) focus.ptr
          frame.sibling.ptr).left := ptr_ne_sibling hfits (Or.inl hne)
      rw [if_neg hleft, pure_apply, before, hside, ← List.append_assoc, List.getLast?_concat]
      rfl

/-- `operator--` at a position goes to the entry before it. -/
theorem decrement_lay {x : ℕ} {color : Color} {left right : Tree Key} {key : Key}
    {frames : List (Frame Key)}
    (hfits : Fits background (plug (.node x color left key right) frames)) :
    (Iterator.mk (.node x) .nil).decrement
        (lay background (plug (.node x color left key right) frames)) =
      .ok (.ofEntry (before frames ++ left.inorder).getLast?)
        (lay background (plug (.node x color left key right) frames)) := by
  have hrun : getPredecessor .nil (.node x)
      (lay background (plug (.node x color left key right) frames)) =
        .ok (landing .nil (before frames ++ left.inorder).getLast?)
          (lay background (plug (.node x color left key right) frames)) := by
    unfold getPredecessor
    rw [if_neg (by simp)]
    refine (bind_ok (read_focus hfits)).trans ?_
    by_cases hleft : left = .nil
    · subst hleft
      have hbound := length_frames_le_live hfits
      rw [if_neg (by simp)]
      refine (bind_ok (fuel_apply _)).trans ?_
      refine (bind_ok (read_focus hfits)).trans ?_
      rw [Tree.inorder_nil, List.append_nil]
      exact climbLeft_lay (show Fits background (plug (.node x color .nil key right) frames)
        from hfits) (by simp) (by omega)
    · have hsize := length_frames_le_size left (⟨.left, x, color, key, right⟩ :: frames)
      have hlive : (plug left (⟨.left, x, color, key, right⟩ :: frames)).size ≤
          (lay background (plug (.node x color left key right) frames)).heap.live.card :=
        size_le_live hfits
      rw [if_pos (mt (Tree.ptr_eq_nil_iff left).mp hleft)]
      refine (bind_ok (fuel_apply _)).trans ?_
      refine (bind_ok (read_focus hfits)).trans ?_
      refine (descendRight_lay hleft (show Fits background (plug left
        (⟨.left, x, color, key, right⟩ :: frames)) from hfits) (by omega)).trans ?_
      rw [List.getLast?_append_of_ne_nil _ (left.inorder_ne_nil hleft)]
      rfl
  unfold Iterator.decrement
  refine (bind_ok hrun).trans ?_
  rw [pure_apply]
  rfl

end Layout

/-! ### There and back -/

/-- `--` applied a number of times. -/
def Iterator.retreat : ℕ → Iterator → TreeM Key Iterator
  | 0, it => return it
  | count + 1, it => do retreat count (← it.decrement)

/-- `--` undoes `++` at an iterator, and `++` undoes `--`, apart from the ends of the tree. -/
def RoundTrips (params : Params Key) (s : State Key) (it : Iterator) : Prop :=
  (it ≠ endIterator →
    ∃ next, it.increment params s = .ok next s ∧ next.decrement s = .ok it s) ∧
  ∀ first, begin s = .ok first s → it ≠ first →
    ∃ previous, it.decrement s = .ok previous s ∧ previous.increment params s = .ok it s

/-- A walk backwards from the end visits all keys in descending order. -/
def WalksBackward (params : Params Key) (s : State Key) : Prop :=
  ∃ entries, s.Lists params entries ∧ ∀ count entry, entries.reverse[count]? = some entry →
    endIterator.retreat (count + 1) s = .ok (.ofEntry (some entry)) s

/-- An iterator is at the greatest key of the tree. -/
def State.IsGreatest (params : Params Key) (s : State Key) (it : Iterator) : Prop :=
  ∃ entry, it = .ofEntry (some entry) ∧ s.Stores entry ∧
    ∀ other, s.Stores other → params.comp entry.2 other.2 = false

/-- `--` at the end. -/
theorem decrement_end (s : State Key) : endIterator.decrement s = .ok endIterator s := rfl

/-- No number of `--` leaves the end. -/
theorem retreat_end (s : State Key) (count : ℕ) :
    endIterator.retreat count s = .ok endIterator s := by
  induction count with
  | zero => rfl
  | succ count ih => exact (bind_ok (decrement_end s)).trans ih

namespace Laid

variable {s background : State Key} {tree : Tree Key} {smaller greater : List (ℕ × Key)}
  {entry : ℕ × Key}

/-- `begin` is at the first entry of the listing. -/
theorem begin (h : Laid params s background tree) :
    begin s = .ok (.ofEntry tree.inorder.head?) s := by
  rw [h.state]
  exact begin_lay h.fits

/-- `operator--` at an entry goes to the entry before it. -/
theorem decrement (h : Laid params s background tree)
    (hcut : tree.inorder = smaller ++ entry :: greater) :
    (Iterator.ofEntry (some entry)).decrement s = .ok (.ofEntry smaller.getLast?) s := by
  obtain ⟨color, left, right, frames, hfocus, rfl, -⟩ := exists_focus_of_cut hcut
  have hfits := h.fits
  have hstate := h.state
  rw [hfocus] at hfits hstate
  rw [hstate]
  exact decrement_lay hfits

/-- The last entry of the listing has the greatest key. -/
theorem isGreatest_iff [IsStrictWeakOrder Key fun first second ↦ params.comp first second = true]
    (h : Laid params s background tree) (hcut : tree.inorder = smaller ++ entry :: greater) :
    s.IsGreatest params (.ofEntry (some entry)) ↔ greater = [] := by
  have hstores : s.Stores entry := (h.stores_iff entry).mpr (by simp [hcut])
  constructor
  · rintro ⟨entry', hsame, hstores', hgreatest⟩
    have haddress : entry.1 = entry'.1 := Ptr.node.inj (congrArg Iterator.node hsame)
    obtain rfl := hstores.eq_of_address hstores' haddress
    cases greater with
    | nil => rfl
    | cons next rest =>
      have habove := (h.good.sorted.cut hcut).2 next (List.mem_cons_self ..)
      rw [hgreatest next ((h.stores_iff next).mpr (by simp [hcut]))] at habove
      cases habove
  · rintro rfl
    refine ⟨entry, rfl, hstores, fun other hother ↦ ?_⟩
    rw [h.stores_iff, hcut, List.mem_append, List.mem_singleton] at hother
    rcases hother with hmem | rfl
    · exact weakOrder_asymm ((h.good.sorted.cut hcut).1 other hmem)
    · exact weakOrder_irrefl _

/-- `++` after `--`. -/
theorem increment_decrement (h : Laid params s background tree)
    (hplain : tree.NoShortcut params.eq) (hcut : tree.inorder = smaller ++ entry :: greater)
    (hfirst : Iterator.ofEntry (some entry) ≠ .ofEntry tree.inorder.head?) :
    ∃ previous, (Iterator.ofEntry (some entry)).decrement s = .ok previous s ∧
      previous.increment params s = .ok (.ofEntry (some entry)) s := by
  refine ⟨_, h.decrement hcut, ?_⟩
  rcases List.eq_nil_or_concat smaller with rfl | ⟨rest, previous, rfl⟩
  · exact absurd (by rw [hcut]; rfl) hfirst
  · rw [List.concat_eq_append, List.getLast?_concat]
    have hcut' : tree.inorder = rest ++ previous :: entry :: greater := by simp [hcut]
    exact h.increment hplain hcut'

/-- `--` after `++`. -/
theorem decrement_increment (h : Laid params s background tree)
    (hplain : tree.NoShortcut params.eq) (hcut : tree.inorder = smaller ++ entry :: greater) :
    (∃ next, (Iterator.ofEntry (some entry)).increment params s = .ok next s ∧
      next.decrement s = .ok (.ofEntry (some entry)) s) ↔ greater ≠ [] := by
  have hnext := h.increment hplain hcut
  cases greater with
  | nil =>
    refine iff_of_false ?_ (not_not_intro rfl)
    rintro ⟨next, hincrement, hdecrement⟩
    cases hnext.symm.trans hincrement
    cases (decrement_end s).symm.trans hdecrement
  | cons next rest =>
    refine iff_of_true ⟨_, hnext, ?_⟩ (List.cons_ne_nil next rest)
    have hcut' : tree.inorder = (smaller ++ [entry]) ++ next :: rest := by simp [hcut]
    refine (h.decrement hcut').trans ?_
    rw [List.getLast?_concat]

/-- The round trips at an entry. -/
theorem roundTrips_iff [IsStrictWeakOrder Key fun first second ↦ params.comp first second = true]
    (h : Laid params s background tree) (hplain : tree.NoShortcut params.eq)
    (hmem : entry ∈ tree.inorder) : RoundTrips params s (.ofEntry (some entry)) ↔
      ¬s.IsGreatest params (.ofEntry (some entry)) := by
  obtain ⟨smaller, greater, hcut⟩ := List.append_of_mem hmem
  rw [h.isGreatest_iff hcut]
  constructor
  · intro hround
    exact (h.decrement_increment hplain hcut).mp (hround.1 (Iterator.ofEntry_ne_end entry))
  · intro hgreater
    refine ⟨fun _ ↦ (h.decrement_increment hplain hcut).mpr hgreater, fun first hbegin hne ↦ ?_⟩
    cases h.begin.symm.trans hbegin
    exact h.increment_decrement hplain hcut hne

/-- The round trips at the end: `--` does not move, and `++` does not move either. -/
theorem roundTrips_end (params : Params Key) (s : State Key) : RoundTrips params s endIterator :=
  ⟨fun hne ↦ absurd rfl hne,
    fun _ _ _ ↦ ⟨endIterator, decrement_end s, increment_end params s⟩⟩

end Laid

/-- Where `++` and `--` are inverse: at every iterator that is not at the greatest key. A walk
backwards from the end visits all keys in the empty tree only. -/
theorem backward_iteration [params.Lawful] {s : State Key} (hs : s.Reachable params) :
    (∀ it, Returned params s it → (RoundTrips params s it ↔ ¬s.IsGreatest params it)) ∧
      (WalksBackward params s ↔ ∀ entry, ¬s.Stores entry) := by
  obtain ⟨background, tree, hlaid⟩ := hs.laid
  have hplain : tree.NoShortcut params.eq := hlaid.good.sorted.noShortcut
  refine ⟨fun it hreturned ↦ ?_, ?_, fun hempty ↦ ?_⟩
  · rcases hreturned.position hs with rfl | hpoints
    · refine iff_of_true (Laid.roundTrips_end params s) ?_
      rintro ⟨entry, hend, -⟩
      exact Iterator.ofEntry_ne_end entry hend.symm
    · obtain ⟨entry, hmem, rfl⟩ := hlaid.exists_entry hpoints
      exact hlaid.roundTrips_iff hplain hmem
  · rintro ⟨entries, hlists, hwalk⟩ entry hstores
    have hmem : entry ∈ entries.reverse := List.mem_reverse.mpr ((hlists.mem_iff entry).mpr hstores)
    obtain ⟨count, hcount⟩ := List.getElem?_of_mem hmem
    have hend := (retreat_end s (count + 1)).symm.trans (hwalk count entry hcount)
    cases hend
  · have hnil : tree.inorder = [] :=
      List.eq_nil_iff_forall_not_mem.mpr fun entry hmem ↦
        hempty entry ((hlaid.stores_iff entry).mpr hmem)
    refine ⟨[], hnil ▸ hlaid.lists, fun count entry hentry ↦ ?_⟩
    cases hentry

/-- A tree of six keys after several operations. -/
theorem backward_iteration_several : ∃ s : State ℕ,
    Represents s.heap .nil s.root severalTree ∧
    (∀ it, Returned Params.naturals s it →
      (RoundTrips Params.naturals s it ↔ ¬s.IsGreatest Params.naturals it)) ∧
    (WalksBackward Params.naturals s ↔ ∀ entry, ¬s.Stores entry) := by
  obtain ⟨s, hs, -, htree⟩ := State.exists_severalOps
  exact ⟨s, htree, backward_iteration hs⟩

/-- In the same tree, `--` does not undo `++` at the iterator that `LowerBound` of the greatest key
returns. -/
theorem decrement_breaks_round_trip : ∃ (s : State ℕ) (it : Iterator),
    s.Reachable Params.naturals ∧ Represents s.heap .nil s.root severalTree ∧
      lowerBound Params.naturals 16 s = .ok it s ∧ it ≠ endIterator ∧
        ¬RoundTrips Params.naturals s it := by
  obtain ⟨s, hs, -, htree⟩ := State.exists_severalOps
  obtain ⟨background, hlaid⟩ := hs.laid_of_represents htree
  have hplain : severalTree.NoShortcut Params.naturals.eq := hlaid.good.sorted.noShortcut
  have hgreatest : s.IsGreatest Params.naturals (.ofEntry (some (8, 16))) :=
    (hlaid.isGreatest_iff
      (show severalTree.inorder = [(2, 4), (3, 6), (5, 10), (6, 12), (7, 14)] ++ [(8, 16)]
        from rfl)).mpr rfl
  have hround := hlaid.roundTrips_iff hplain
    (show (8, 16) ∈ severalTree.inorder by decide)
  refine ⟨s, _, hs, htree, hlaid.lowerBound 16, Iterator.ofEntry_ne_end (8, 16), ?_⟩
  exact fun htrips ↦ hround.mp htrips hgreatest

end StudStuff.RedBlackTree
