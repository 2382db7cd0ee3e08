import StudStuff.RedBlackTree.Descents

/-!
# The height of reachable trees

A balanced tree of black height `b` has at least `2 ^ b - 1` nodes (`Balanced.two_pow_le_size`), and
no path down from its root passes more than `2 * b` of them when the root is black
(`Balanced.height_le`). So the height of a reachable tree is at most twice the binary logarithm of
the number of its nodes plus one, and no search inspects more nodes than that
(`reachable_logarithmic`).
-/

set_option autoImplicit false
set_option relaxedAutoImplicit false

namespace StudStuff.RedBlackTree

open Lib

variable {Key : Type} {params : Params Key}

/-! ### Height -/

/-- The child pointers from a pointer down to the sentinel pass these nodes. -/
inductive NodePath (heap : Heap ℕ (RBNode Key)) : Ptr → List ℕ → Prop
  | nil : NodePath heap .nil []
  | child {address : ℕ} {node : RBNode Key} {rest : List ℕ} (side : Side)
      (hcell : heap.cell address = some node) (hrest : NodePath heap (node.child side) rest) :
      NodePath heap (.node address) (address :: rest)

/-- The number of nodes on a longest path from the root down to the sentinel. -/
structure State.HasHeight (s : State Key) (height : ℕ) : Prop where
  attained : ∃ path, NodePath s.heap s.root path ∧ path.length = height
  longest : ∀ path, NodePath s.heap s.root path → path.length ≤ height

/-- The number of nodes on a longest path down from the root. -/
def Tree.height : Tree Key → ℕ
  | nil => 0
  | node _ _ left _ right => max left.height right.height + 1

section Represented

variable {heap : Heap ℕ (RBNode Key)} {parent root : Ptr} {tree : Tree Key}

/-- A longest path. -/
theorem Represents.exists_path (h : Represents heap parent root tree) :
    ∃ path, NodePath heap root path ∧ path.length = tree.height := by
  induction h with
  | nil parent => exact ⟨[], .nil, rfl⟩
  | @node parent leftPtr rightPtr address color key left right hcell hleft hright ihl ihr =>
    obtain ⟨pathL, hpathL, hlengthL⟩ := ihl
    obtain ⟨pathR, hpathR, hlengthR⟩ := ihr
    rw [Tree.height]
    by_cases hle : right.height ≤ left.height
    · refine ⟨address :: pathL, .child .left hcell hpathL, ?_⟩
      rw [List.length_cons, hlengthL, max_eq_left hle]
    · refine ⟨address :: pathR, .child .right hcell hpathR, ?_⟩
      rw [List.length_cons, hlengthR, max_eq_right (by omega)]

/-- No path is longer. -/
theorem Represents.length_le (h : Represents heap parent root tree) {path : List ℕ}
    (hpath : NodePath heap root path) : path.length ≤ tree.height := by
  induction h generalizing path with
  | nil parent =>
    cases hpath
    exact Nat.le_refl 0
  | @node parent leftPtr rightPtr address color key left right hcell hleft hright ihl ihr =>
    cases hpath with
    | @child _ cell rest side hcell' hrest =>
      rw [hcell, Option.some.injEq] at hcell'
      subst hcell'
      rw [Tree.height, List.length_cons]
      cases side with
      | left => exact Nat.succ_le_succ ((ihl hrest).trans (Nat.le_max_left ..))
      | right => exact Nat.succ_le_succ ((ihr hrest).trans (Nat.le_max_right ..))

/-- The way down that a descent takes through a represented tree. -/
theorem Represents.exists_traversal (turn : Key → Option Side)
    (h : Represents heap parent root tree) (hnodup : tree.addresses.Nodup) :
    ∃ nodes, Traversal turn heap root nodes ∧ nodes.Nodup ∧ nodes ⊆ tree.addresses ∧
      nodes.length ≤ tree.height := by
  induction h with
  | nil parent => exact ⟨[], .nil, List.nodup_nil, List.nil_subset _, Nat.le_refl 0⟩
  | @node parent leftPtr rightPtr address color key left right hcell hleft hright ihl ihr =>
    simp only [Tree.addresses_node, List.nodup_append, List.nodup_cons, List.mem_cons] at hnodup
    have hextend (side : Side) {child : Tree Key} {nodes : List ℕ}
        (hturn : turn key = some side) (hmax : child.height ≤ max left.height right.height)
        (haddress : address ∉ child.addresses)
        (hchild : child.addresses ⊆ (Tree.node address color left key right).addresses)
        (htraversal : Traversal turn heap
          ((RBNode.mk key color parent leftPtr rightPtr).child side) nodes)
        (hnodes : nodes.Nodup) (hsubset : nodes ⊆ child.addresses)
        (hlength : nodes.length ≤ child.height) :
        ∃ nodes, Traversal turn heap (.node address) nodes ∧ nodes.Nodup ∧
          nodes ⊆ (Tree.node address color left key right).addresses ∧
          nodes.length ≤ (Tree.node address color left key right).height := by
      refine ⟨address :: nodes, .go hcell hturn htraversal, ?_, ?_, ?_⟩
      · exact List.nodup_cons.mpr ⟨fun hmem ↦ haddress (hsubset hmem), hnodes⟩
      · exact List.cons_subset.mpr ⟨by simp, fun other hmem ↦ hchild (hsubset hmem)⟩
      · rw [List.length_cons, Tree.height]
        omega
    cases hturn : turn key with
    | none =>
      refine ⟨[address], .stop hcell hturn, List.nodup_singleton _, by simp, ?_⟩
      rw [Tree.height, List.length_singleton]
      omega
    | some side =>
      cases side with
      | left =>
        obtain ⟨nodes, htraversal, hnodes, hsubset, hlength⟩ := ihl hnodup.1
        refine hextend .left hturn (Nat.le_max_left ..) (by grind) ?_ htraversal hnodes hsubset
          hlength
        intro other hmem
        simp [hmem]
      | right =>
        obtain ⟨nodes, htraversal, hnodes, hsubset, hlength⟩ := ihr hnodup.2.1.2
        refine hextend .right hturn (Nat.le_max_right ..) hnodup.2.1.1 ?_ htraversal hnodes
          hsubset hlength
        intro other hmem
        simp [hmem]

end Represented

/-! ### The bound -/

/-- The most nodes on a path down from the root of a balanced tree. -/
def heightBound : Color → ℕ → ℕ
  | .red, blackHeight => 2 * blackHeight + 1
  | .black, blackHeight => 2 * blackHeight

namespace Balanced

variable {tree : Tree Key} {color : Color} {blackHeight : ℕ}

/-- A path alternates between black and red nodes at worst. -/
theorem height_le (h : Balanced tree color blackHeight) :
    tree.height ≤ heightBound color blackHeight := by
  induction h with
  | nil => exact Nat.le_refl 0
  | red hleft hright ihl ihr =>
    simp only [heightBound, Tree.height] at ihl ihr ⊢
    omega
  | @black address left right key blackHeight leftColor rightColor hleft hright ihl ihr =>
    have hbound (color : Color) : heightBound color blackHeight ≤ 2 * blackHeight + 1 := by
      cases color with
      | red => exact Nat.le_refl _
      | black => exact Nat.le_succ _
    have hl := ihl.trans (hbound leftColor)
    have hr := ihr.trans (hbound rightColor)
    simp only [heightBound, Tree.height]
    omega

/-- The black nodes alone fill a complete tree. -/
theorem two_pow_le_size (h : Balanced tree color blackHeight) :
    2 ^ blackHeight ≤ tree.size + 1 := by
  induction h with
  | nil => exact Nat.le_refl 1
  | red hleft hright ihl ihr =>
    rw [Tree.size]
    omega
  | black hleft hright ihl ihr =>
    rw [Tree.size, Nat.pow_succ]
    omega

/-- The height bound in terms of the number of nodes. -/
theorem two_pow_height_le_size (h : Balanced tree .black blackHeight) :
    2 ^ ((tree.height + 1) / 2) ≤ tree.size + 1 := by
  have hheight : tree.height ≤ 2 * blackHeight := h.height_le
  calc 2 ^ ((tree.height + 1) / 2)
      ≤ 2 ^ blackHeight := Nat.pow_le_pow_right Nat.two_pos (by omega)
    _ ≤ tree.size + 1 := h.two_pow_le_size

/-- The height is logarithmic. -/
theorem height_le_log (h : Balanced tree .black blackHeight) :
    tree.height ≤ 2 * (tree.size + 1).log2 := by
  have hlog : (tree.height + 1) / 2 ≤ (tree.size + 1).log2 :=
    (Nat.le_log2 (Nat.succ_ne_zero _)).mpr h.two_pow_height_le_size
  omega

end Balanced

/-! ### Reachable trees -/

section Reachable

variable {s background : State Key} {tree : Tree Key}

/-- The height that is read off the heap is that of the tree. -/
theorem Laid.hasHeight (h : Laid params s background tree) : s.HasHeight tree.height :=
  ⟨h.represents.exists_path, fun _ hpath ↦ h.represents.length_le hpath⟩

/-- A descent inspects no more nodes than a longest path has. -/
theorem Laid.inspects {α σ : Type} {turn : Key → Option Side}
    {loop : ℕ → Ptr → σ → TreeM Key α} (h : Laid params s background tree)
    (hdescent : IsDescent turn loop) (found : σ) :
    InspectsAtMost tree.height (do loop (← fuel) (← get).root found) s := by
  have hfuse : s.fuse = none := by
    rw [h.state]
    exact h.fuse
  obtain ⟨nodes, htraversal, hnodup, -, hlength⟩ :=
    h.represents.exists_traversal turn h.fits.nodup
  exact (htraversal.inspects hdescent hnodup hfuse found).mono hlength

/-- The height of a reachable tree is at most twice the binary logarithm of its size plus one,
rounded down. `Find`, `LowerBound`, `UpperBound` and the search of `Insert` inspect no more nodes
than that. -/
theorem reachable_logarithmic
    [IsStrictWeakOrder Key fun first second ↦ params.comp first second = true]
    (hs : s.Reachable params) :
    (∃ height, s.HasHeight height ∧ 2 ^ ((height + 1) / 2) ≤ s.size + 1 ∧
      height ≤ 2 * (s.size + 1).log2) ∧
    ∀ key,
      InspectsAtMost (2 * (s.size + 1).log2) (find params key) s ∧
      InspectsAtMost (2 * (s.size + 1).log2) (lowerBound params key) s ∧
      InspectsAtMost (2 * (s.size + 1).log2) (upperBound params key) s ∧
      InspectsAtMost (2 * (s.size + 1).log2)
        (do insertDescend params key (← fuel) (← get).root .nil) s := by
  obtain ⟨background, tree, hlaid⟩ := hs.laid
  obtain ⟨blackHeight, hbalanced⟩ := hlaid.good.balanced
  have hlog := hbalanced.height_le_log
  rw [hlaid.size_eq]
  constructor
  · exact ⟨tree.height, hlaid.hasHeight, hbalanced.two_pow_height_le_size, hlog⟩
  · intro key
    have hfind := hlaid.inspects (findNodeLoop_isDescent params key) ()
    have hlower := hlaid.inspects (lowerBoundLoop_isDescent params key) .nil
    have hupper := hlaid.inspects (upperBoundLoop_isDescent params key) .nil
    have hinsert := hlaid.inspects (insertDescend_isDescent params key) .nil
    exact ⟨(hfind.map _).mono hlog, (hlower.map _).mono hlog, (hupper.map _).mono hlog,
      hinsert.mono hlog⟩

/-- A tree of six keys after several operations. -/
theorem reachable_logarithmic_several : ∃ s : State ℕ, s.size = 6 ∧
    Represents s.heap .nil s.root severalTree ∧
    (∃ height, s.HasHeight height ∧ 2 ^ ((height + 1) / 2) ≤ s.size + 1 ∧
      height ≤ 2 * (s.size + 1).log2) ∧
    ∀ key,
      InspectsAtMost (2 * (s.size + 1).log2) (find Params.naturals key) s ∧
      InspectsAtMost (2 * (s.size + 1).log2) (lowerBound Params.naturals key) s ∧
      InspectsAtMost (2 * (s.size + 1).log2) (upperBound Params.naturals key) s ∧
      InspectsAtMost (2 * (s.size + 1).log2)
        (do insertDescend Params.naturals key (← fuel) (← get).root .nil) s := by
  obtain ⟨s, hs, hsize, htree⟩ := State.exists_severalOps
  exact ⟨s, hsize, htree, reachable_logarithmic hs⟩

end Reachable

end StudStuff.RedBlackTree
