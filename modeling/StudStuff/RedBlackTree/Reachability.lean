import StudStuff.RedBlackTree.Copying

/-!
# What a root pointer reaches

`Represents heap parent root tree` says that the pointers from `root` on unfold to a tree: child
pointers lead down, and the parent field of every node is the node above it. `Reaches` follows
child pointers only. Both are read off a heap without any layout, and they hold of every tree whose
cells are present.
-/

set_option autoImplicit false
set_option relaxedAutoImplicit false

namespace StudStuff.RedBlackTree

open Lib

variable {Key : Type}

/-- The pointers from a root unfold to a tree, and every parent field is the node above. -/
inductive Represents (heap : Heap ℕ (RBNode Key)) : Ptr → Ptr → Tree Key → Prop
  | nil (parent : Ptr) : Represents heap parent .nil .nil
  | node {parent leftPtr rightPtr : Ptr} {address : ℕ} {color : Color} {key : Key}
      {left right : Tree Key}
      (hcell : heap.cell address = some ⟨key, color, parent, leftPtr, rightPtr⟩)
      (hleft : Represents heap (.node address) leftPtr left)
      (hright : Represents heap (.node address) rightPtr right) :
      Represents heap parent (.node address) (.node address color left key right)

/-- A node is reached from a pointer through child pointers. -/
inductive Reaches (heap : Heap ℕ (RBNode Key)) : Ptr → ℕ → Prop
  | here {address : ℕ} {node : RBNode Key} (hcell : heap.cell address = some node) :
      Reaches heap (.node address) address
  | child {address other : ℕ} {node : RBNode Key} (side : Side)
      (hcell : heap.cell address = some node) (hchild : Reaches heap (node.child side) other) :
      Reaches heap (.node address) other

/-- A present tree is what its root pointer represents. -/
theorem Present.represents {heap : Heap ℕ (RBNode Key)} {parent : Ptr} {tree : Tree Key}
    (h : Present heap parent tree) (hnodup : tree.addresses.Nodup) :
    Represents heap parent tree.ptr tree := by
  induction tree generalizing parent with
  | nil => exact .nil parent
  | node address color left key right ihl ihr =>
    have hleft := h.goLeft hnodup
    have hright := h.goRight hnodup
    simp only [Tree.addresses_node, List.nodup_append, List.nodup_cons] at hnodup
    exact .node h.root (ihl hleft hnodup.1) (ihr hright hnodup.2.1.2)

/-- A pointer represents one tree only. -/
theorem Represents.unique {heap : Heap ℕ (RBNode Key)} {parent root : Ptr} {tree tree' : Tree Key}
    (h : Represents heap parent root tree) (h' : Represents heap parent root tree') :
    tree = tree' := by
  induction h generalizing tree' with
  | nil parent =>
    cases h'
    rfl
  | @node parent leftPtr rightPtr address color key left right hcell hleft hright ihl ihr =>
    cases h' with
    | node hcell' hleft' hright' =>
      rw [hcell, Option.some.injEq] at hcell'
      cases hcell'
      rw [ihl hleft', ihr hright']

/-- The nodes a root pointer reaches are the nodes of the tree it represents. -/
theorem Represents.reaches_iff {heap : Heap ℕ (RBNode Key)} {parent root : Ptr} {tree : Tree Key}
    (h : Represents heap parent root tree) (other : ℕ) :
    Reaches heap root other ↔ other ∈ tree.addresses := by
  induction h with
  | nil parent =>
    constructor
    · rintro ⟨⟩
    · intro hmem
      cases hmem
  | @node parent leftPtr rightPtr address color key left right hcell hleft hright ihl ihr =>
    rw [Tree.addresses_node, List.mem_append, List.mem_cons, ← ihl, ← ihr]
    constructor
    · intro hreach
      cases hreach with
      | here hcell' => exact Or.inr (Or.inl rfl)
      | child side hcell' hchild =>
        rw [hcell, Option.some.injEq] at hcell'
        subst hcell'
        cases side with
        | left => exact Or.inl hchild
        | right => exact Or.inr (Or.inr hchild)
    · rintro (hreach | rfl | hreach)
      · exact .child .left hcell hreach
      · exact .here hcell
      · exact .child .right hcell hreach

end StudStuff.RedBlackTree
