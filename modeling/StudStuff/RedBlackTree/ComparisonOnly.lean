import Mathlib.Tactic.SplitIfs
import StudStuff.RedBlackTree.Iteration

/-!
# What depends on `==`

The class template promises nothing about `==` of the key type, yet `GetSuccessor` compares a right
child with its own right child by `==`. `DecidedByCompare` says that iteration, `Remove` and `Erase`
are the same for two definitions of `==` and what the comparison makes them. It holds exactly when
neither definition finds such a pair of nodes in the tree (`decidedByCompare_iff`).
-/

set_option autoImplicit false
set_option relaxedAutoImplicit false

namespace StudStuff.RedBlackTree

open Lib

variable {Key : Type} {params : Params Key}

/-- The same class template for a key type with another `==`. -/
def Params.withEq (params : Params Key) (eq : Key → Key → Bool) : Params Key :=
  { params with eq := eq }

/-- A node with a right child whose own right child is equal to it by `==`. -/
def State.HasShortcut (s : State Key) (eq : Key → Key → Bool) : Prop :=
  ∃ x y z node child grandchild, Reaches s.heap s.root x ∧
    s.heap.cell x = some node ∧ node.right = .node y ∧
    s.heap.cell y = some child ∧ child.right = .node z ∧
    s.heap.cell z = some grandchild ∧ eq grandchild.data child.data = true

/-- `++`, `Remove` and `Erase` do what the comparison says. -/
structure OrderExact (params : Params Key) (s : State Key) : Prop where
  /-- `++` skips no key. -/
  increment : ∀ entry, s.Stores entry → ∃ next,
    (Iterator.ofEntry (some entry)).increment params s = .ok next s ∧
      s.IsNext params entry.2 next
  /-- `Remove` returns and takes away the equivalent keys and no others. -/
  remove : ∀ key, ∃ count s', remove params key s = .ok count s' ∧ ∀ entry,
    s'.Stores entry ↔ s.Stores entry ∧ equivalent params.comp key entry.2 = false
  /-- `Erase` returns the next position. -/
  erase : ∀ entry sentinel, s.Stores entry → ∃ next s',
    erase params ⟨.node entry.1, sentinel⟩ s = .ok next s' ∧ s.IsNext params entry.2 next

/-- Two definitions of `==` make no difference, and the comparison decides. -/
structure DecidedByCompare (params : Params Key) (eq eq' : Key → Key → Bool) (s : State Key) :
    Prop where
  iteration : ∀ count, (do (← begin).advance (params.withEq eq) count) s =
    (do (← begin).advance (params.withEq eq') count) s
  increment : ∀ it, s.Points it →
    it.increment (params.withEq eq) s = it.increment (params.withEq eq') s
  remove : ∀ key, remove (params.withEq eq) key s = remove (params.withEq eq') key s
  erase : ∀ entry sentinel, s.Stores entry →
    erase (params.withEq eq) ⟨.node entry.1, sentinel⟩ s =
      erase (params.withEq eq') ⟨.node entry.1, sentinel⟩ s
  exact : OrderExact (params.withEq eq) s
  exact' : OrderExact (params.withEq eq') s

/-! ### Shortcuts of a laid out tree -/

namespace Laid

variable {s background : State Key} {tree : Tree Key}

/-- Layouts do not depend on `==`. -/
theorem withEq (h : Laid params s background tree) (eq : Key → Key → Bool) :
    Laid (params.withEq eq) s background tree :=
  ⟨h.state, h.good, h.fits, h.size, h.nil, h.fuse⟩

/-- The node at an entry and what its child pointers lead to. -/
theorem exists_cell (h : Laid params s background tree) {focus : Tree Key}
    {frames : List (Frame Key)} (hfocus : tree = plug focus frames) {address : ℕ}
    (hptr : focus.ptr = .node address) :
    ∃ color left key right parent, focus = .node address color left key right ∧
      s.heap.cell address = some ⟨key, color, parent, left.ptr, right.ptr⟩ := by
  cases focus with
  | nil => cases hptr
  | node other color left key right =>
    obtain rfl := Ptr.node.inj hptr
    have hfits := h.fits
    have hstate := h.state
    rw [hfocus] at hfits hstate
    exact ⟨color, left, key, right, _, rfl, hstate ▸ cell_focus hfits⟩

/-- The pairs of nodes that the shortcut is taken for. -/
theorem hasShortcut_iff (h : Laid params s background tree) (eq : Key → Key → Bool) :
    s.HasShortcut eq ↔ ¬tree.NoShortcut eq := by
  constructor
  · rintro ⟨x, y, z, node, child, grandchild, hreach, hx, hy, hy', hz, hz', heq⟩ hplain
    obtain ⟨entry, hmem, rfl⟩ := List.mem_map.mp ((h.reaches_iff x).mp hreach)
    obtain ⟨color, left, right, frames, hfocus⟩ := exists_focus hmem
    obtain ⟨_, _, _, _, _, hnode, hcell⟩ := h.exists_cell hfocus rfl
    cases hnode
    cases hx.symm.trans hcell
    have hfocus' : tree = plug right (⟨.right, entry.1, color, entry.2, left⟩ :: frames) := hfocus
    obtain ⟨color', left', key', right', _, rfl, hcell'⟩ := h.exists_cell hfocus' hy
    cases hy'.symm.trans hcell'
    have hfocus'' : tree = plug right' (⟨.right, y, color', key', left'⟩ ::
      ⟨.right, entry.1, color, entry.2, left⟩ :: frames) := hfocus'
    obtain ⟨_, _, key'', _, _, rfl, hcell''⟩ := h.exists_cell hfocus'' hz
    cases hz'.symm.trans hcell''
    have hnone := hplain _ _ _ _ _ _ hfocus
    rw [Tree.duplicate, if_pos heq] at hnone
    cases hnone
  · intro hshortcut
    simp only [Tree.NoShortcut, not_forall] at hshortcut
    obtain ⟨x, color, left, key, right, frames, hfocus, hduplicate⟩ := hshortcut
    obtain ⟨entry, hentry⟩ := Option.ne_none_iff_exists'.mp hduplicate
    obtain ⟨y, color', left', key', color'', left'', right'', rfl, heq⟩ :=
      Tree.exists_of_duplicate hentry
    have hfocus' : tree = plug
        (.node y color' left' key' (.node entry.1 color'' left'' entry.2 right''))
        (⟨.right, x, color, key, left⟩ :: frames) := hfocus
    have hfocus'' : tree = plug (.node entry.1 color'' left'' entry.2 right'')
      (⟨.right, y, color', key', left'⟩ :: ⟨.right, x, color, key, left⟩ :: frames) := hfocus
    obtain ⟨_, _, _, _, _, hnode, hcell⟩ := h.exists_cell hfocus rfl
    obtain ⟨_, _, _, _, _, hnode', hcell'⟩ := h.exists_cell hfocus' rfl
    obtain ⟨_, _, _, _, _, hnode'', hcell''⟩ := h.exists_cell hfocus'' rfl
    cases hnode
    cases hnode'
    cases hnode''
    refine ⟨x, y, entry.1, _, _, _, ?_, hcell, rfl, hcell', rfl, hcell'', heq⟩
    rw [h.reaches_iff, hfocus, mem_addresses_plug]
    simp

/-- No shortcut is taken in a tree in which `++` skips no key. -/
theorem noShortcut_of_increment
    [IsStrictWeakOrder Key fun first second ↦ params.comp first second = true]
    (h : Laid params s background tree)
    (hincrement : ∀ entry, s.Stores entry → ∃ next,
      (Iterator.ofEntry (some entry)).increment params s = .ok next s ∧
        s.IsNext params entry.2 next) : tree.NoShortcut params.eq := by
  intro x color left key right frames hfocus
  cases hduplicate : right.duplicate params.eq with
  | none => rfl
  | some jump =>
    -- The shortcut jumps over the right child, whose key lies between.
    obtain ⟨y, color', left', key', color'', left'', right'', rfl, -⟩ :=
      Tree.exists_of_duplicate hduplicate
    have hinorder := inorder_plug (.node x color left key
      (.node y color' left' key' (.node jump.1 color'' left'' jump.2 right''))) frames
    have hstores {entry : ℕ × Key} (hmem : entry = (x, key) ∨ entry = (y, key') ∨
        entry = jump) : s.Stores entry := by
      rw [h.stores_iff, hfocus, hinorder]
      rcases hmem with rfl | rfl | rfl <;> simp
    have hsorted := h.good.sorted
    have hfits := h.fits
    have hstate := h.state
    rw [hfocus] at hsorted hfits hstate
    obtain ⟨-, hright, -, habove⟩ := hsorted.focus.of_node
    have hlow : params.comp key key' = true := habove (y, key') (by simp)
    have hhigh : params.comp key' jump.2 = true := hright.of_node.2.2.2 jump (by simp)
    obtain ⟨next, hrun, hnext⟩ := hincrement (x, key) (hstores (Or.inl rfl))
    have hrun' : (Iterator.mk (.node x) .nil).increment params _ = _ := increment_run hfits
    rw [hduplicate, Option.some_or, ← hstate] at hrun'
    cases hrun'.symm.trans hrun
    rcases hnext with ⟨hend, -⟩ | ⟨entry, hentry, hentry', -, hleast⟩
    · cases hend
    · have haddress : jump.1 = entry.1 := Ptr.node.inj (congrArg Iterator.node hentry)
      obtain rfl := (hstores (Or.inr (Or.inr rfl))).eq_of_address hentry' haddress
      rw [hleast (y, key') (hstores (Or.inr (Or.inl rfl))) hlow] at hhigh
      cases hhigh

/-- Where the shortcut is never taken, the comparison decides. -/
theorem orderExact [IsStrictWeakOrder Key fun first second ↦ params.comp first second = true]
    (h : Laid params s background tree) (hplain : tree.NoShortcut params.eq) :
    OrderExact params s := by
  refine ⟨fun entry hstores ↦ ?_, fun key ↦ ?_, fun entry sentinel hstores ↦ ?_⟩
  · obtain ⟨smaller, greater, hcut⟩ := List.append_of_mem ((h.stores_iff entry).mp hstores)
    exact ⟨_, h.increment hplain hcut, h.isNext hcut⟩
  · by_cases hpresent : ∃ entry ∈ tree.inorder, equivalent params.comp key entry.2 = true
    · obtain ⟨entry, hmem, hentry⟩ := hpresent
      obtain ⟨smaller, greater, hcut⟩ := List.append_of_mem hmem
      obtain ⟨s', background', tree', hrun, hlaid', hlist, -⟩ := h.erase hplain hcut .nil
      rw [h.state] at hrun
      refine ⟨1, s', h.state ▸ remove_of_erase h.good.sorted h.fits hcut hentry hrun,
        fun other ↦ ?_⟩
      rw [hlaid'.stores_iff, hlist, h.stores_iff, h.good.sorted.mem_rest_iff hcut hentry]
    · have habsent : ∀ entry ∈ tree.inorder, equivalent params.comp key entry.2 = false :=
        fun entry hmem ↦ Bool.eq_false_of_not_eq_true fun hentry ↦ hpresent ⟨entry, hmem, hentry⟩
      refine ⟨0, s, ?_, fun other ↦ ?_⟩
      · rw [h.state]
        exact remove_absent h.good.sorted h.fits habsent
      · rw [h.stores_iff]
        exact ⟨fun hmem ↦ ⟨hmem, habsent other hmem⟩, And.left⟩
  · obtain ⟨smaller, greater, hcut⟩ := List.append_of_mem ((h.stores_iff entry).mp hstores)
    obtain ⟨s', background', tree', hrun, -⟩ := h.erase hplain hcut sentinel
    exact ⟨_, s', hrun, h.isNext hcut⟩

end Laid

/-! ### Two definitions of `==` -/

/-- `Erase` depends on `==` by way of `++` only. -/
theorem erase_congr {params params' : Params Key} {pos next : Iterator} {s : State Key}
    (h : (Iterator.mk pos.node .nil).increment params s = .ok next s)
    (h' : (Iterator.mk pos.node .nil).increment params' s = .ok next s) :
    erase params pos s = erase params' pos s := by
  unfold erase
  split_ifs
  · rfl
  · rw [bind_ok h, bind_ok h']

section TwoRuns

variable [IsStrictWeakOrder Key fun first second ↦ params.comp first second = true]
  {s background : State Key} {tree : Tree Key}

instance (eq : Key → Key → Bool) :
    IsStrictWeakOrder Key fun first second ↦ (params.withEq eq).comp first second = true :=
  inferInstanceAs (IsStrictWeakOrder Key fun first second ↦ params.comp first second = true)

/-- Where neither definition takes the shortcut, they make no difference. -/
theorem Laid.decidedByCompare (h : Laid params s background tree) {eq eq' : Key → Key → Bool}
    (hplain : tree.NoShortcut eq) (hplain' : tree.NoShortcut eq') :
    DecidedByCompare params eq eq' s := by
  have hlaid := h.withEq eq
  have hlaid' := h.withEq eq'
  have herase {smaller greater : List (ℕ × Key)} {entry : ℕ × Key}
      (hcut : tree.inorder = smaller ++ entry :: greater) (sentinel : Ptr) :
      RedBlackTree.erase (params.withEq eq) ⟨.node entry.1, sentinel⟩ s =
        RedBlackTree.erase (params.withEq eq') ⟨.node entry.1, sentinel⟩ s :=
    erase_congr (hlaid.increment hplain hcut) (hlaid'.increment hplain' hcut)
  refine ⟨fun count ↦ ?_, fun it hpoints ↦ ?_, fun key ↦ ?_, fun entry sentinel hstores ↦ ?_,
    hlaid.orderExact hplain, hlaid'.orderExact hplain'⟩
  · have hbegin : RedBlackTree.begin s = .ok (.ofEntry tree.inorder.head?) s := by
      rw [h.state]
      exact begin_lay h.fits
    have hcut : tree.inorder = [] ++ tree.inorder := rfl
    exact ((bind_ok hbegin).trans (hlaid.advance hplain hcut count)).trans
      ((bind_ok hbegin).trans (hlaid'.advance hplain' hcut count)).symm
  · obtain ⟨entry, hmem, rfl⟩ := h.exists_entry hpoints
    obtain ⟨smaller, greater, hcut⟩ := List.append_of_mem hmem
    exact (hlaid.increment hplain hcut).trans (hlaid'.increment hplain' hcut).symm
  · by_cases hpresent : ∃ entry ∈ tree.inorder, equivalent params.comp key entry.2 = true
    · obtain ⟨entry, hmem, hentry⟩ := hpresent
      obtain ⟨smaller, greater, hcut⟩ := List.append_of_mem hmem
      obtain ⟨s', background', tree', hrun, -⟩ := hlaid.erase hplain hcut .nil
      have hrun' := (herase hcut .nil).symm.trans hrun
      rw [h.state] at hrun hrun' ⊢
      exact (remove_of_erase hlaid.good.sorted h.fits hcut hentry hrun).trans
        (remove_of_erase hlaid'.good.sorted h.fits hcut hentry hrun').symm
    · have habsent : ∀ entry ∈ tree.inorder, equivalent params.comp key entry.2 = false :=
        fun entry hmem ↦ Bool.eq_false_of_not_eq_true fun hentry ↦ hpresent ⟨entry, hmem, hentry⟩
      rw [h.state]
      exact (remove_absent hlaid.good.sorted h.fits habsent).trans
        (remove_absent hlaid'.good.sorted h.fits habsent).symm
  · obtain ⟨smaller, greater, hcut⟩ := List.append_of_mem ((h.stores_iff entry).mp hstores)
    exact herase hcut sentinel

/-- The ordering is decided by the comparison alone exactly when neither definition of `==` finds a
right child that is equal to its own right child. -/
theorem decidedByCompare_iff (hs : s.Reachable params) (eq eq' : Key → Key → Bool) :
    DecidedByCompare params eq eq' s ↔ ¬s.HasShortcut eq ∧ ¬s.HasShortcut eq' := by
  obtain ⟨background, tree, hlaid⟩ := hs.laid
  rw [hlaid.hasShortcut_iff, hlaid.hasShortcut_iff, not_not, not_not]
  constructor
  · intro hdecided
    exact ⟨(hlaid.withEq eq).noShortcut_of_increment hdecided.exact.increment,
      (hlaid.withEq eq').noShortcut_of_increment hdecided.exact'.increment⟩
  · rintro ⟨hplain, hplain'⟩
    exact hlaid.decidedByCompare hplain hplain'

end TwoRuns

/-- An `==` that compares the parity of numbers. -/
def eqParity (first second : ℕ) : Bool := first % 2 == second % 2

/-- A call of `++` that returns a given iterator. -/
def Iterator.stepsTo (params : Params Key) (it next : Iterator) (s : State Key) : Bool :=
  match it.increment params s with
  | .ok it' _ => it' = next
  | .error _ _ => false

/-- The tree of 2, 4, 6 and 8, where `++` goes from 4 to 6, and to 8 when `==` compares parities. -/
theorem exists_evens : ∃ s : State ℕ, s.Reachable Params.naturals ∧ s.size = 4 ∧
    s.Points ⟨.node 2, .nil⟩ ∧
      (Iterator.mk (.node 2) .nil).stepsTo Params.naturals ⟨.node 3, .nil⟩ s = true ∧
      (Iterator.mk (.node 2) .nil).stepsTo (Params.naturals.withEq eqParity) ⟨.node 4, .nil⟩ s =
        true := by
  obtain ⟨s, hs, htest⟩ := State.exists_of_testAfter Params.naturals
    [.construct 0, .insert 0 2, .insert 0 4, .insert 0 6, .insert 0 8]
    (fun s ↦ decide (s.size = 4) && decide (s.root = .node 2) && (s.heap.cell 2).isSome &&
      (Iterator.mk (.node 2) .nil).stepsTo Params.naturals ⟨.node 3, .nil⟩ s &&
      (Iterator.mk (.node 2) .nil).stepsTo (Params.naturals.withEq eqParity) ⟨.node 4, .nil⟩ s)
    (by decide +kernel)
  simp only [Bool.and_eq_true, decide_eq_true_eq] at htest
  obtain ⟨⟨⟨⟨hsize, hroot⟩, hcell⟩, hnext⟩, hjump⟩ := htest
  obtain ⟨node, hnode⟩ := Option.isSome_iff_exists.mp hcell
  exact ⟨s, hs, hsize, ⟨rfl, 2, rfl, hroot ▸ .here hnode⟩, hnext, hjump⟩

/-- That tree, with `==` and with the comparison of parities. -/
theorem decidedByCompare_iff_evens : ∃ s : State ℕ, s.size = 4 ∧
    (DecidedByCompare Params.naturals Params.naturals.eq eqParity s ↔
      ¬s.HasShortcut Params.naturals.eq ∧ ¬s.HasShortcut eqParity) := by
  obtain ⟨s, hs, hsize, -⟩ := exists_evens
  exact ⟨s, hsize, decidedByCompare_iff hs _ _⟩

/-- In the tree of 2, 4, 6 and 8, `++` jumps from 4 to 8 when `==` compares parities. -/
theorem increment_skips_key : ∃ s : State ℕ, s.Reachable Params.naturals ∧
    ¬DecidedByCompare Params.naturals Params.naturals.eq eqParity s := by
  obtain ⟨s, hs, -, hpoints, hnext, hjump⟩ := exists_evens
  refine ⟨s, hs, fun hdecided ↦ ?_⟩
  have hsame : (Iterator.mk (.node 2) .nil).increment Params.naturals s =
      (Iterator.mk (.node 2) .nil).increment (Params.naturals.withEq eqParity) s :=
    hdecided.increment _ hpoints
  rw [Iterator.stepsTo, hsame] at hnext
  rw [Iterator.stepsTo] at hjump
  cases hresult : (Iterator.mk (.node 2) .nil).increment (Params.naturals.withEq eqParity) s with
  | error stop s' =>
    rw [hresult] at hnext
    cases hnext
  | ok it s' =>
    rw [hresult] at hnext hjump
    have hit : it = ⟨.node 3, .nil⟩ := of_decide_eq_true hnext
    rw [hit] at hjump
    cases hjump

end StudStuff.RedBlackTree
