import StudStuff.RedBlackTree.Positions

/-!
# The nodes that a descent inspects

A program inspects no nodes but those of a set when it returns the same in a memory in which only
these are live, as reading any other node is a fault there (`InspectsAtMost`).

The four searching loops go down from a node to one of its children, on the side that a comparison
with the key of the node picks, or stop at the node (`IsDescent`). The nodes on the way down from a
root are a `Traversal`, and these are what the loop inspects (`Traversal.inspects`).
-/

set_option autoImplicit false
set_option relaxedAutoImplicit false

namespace StudStuff.RedBlackTree

open Lib

variable {Key : Type} {params : Params Key}

/-! ### Inspected nodes -/

/-- The state in which only some of the nodes are live. -/
def State.restrict (s : State Key) (nodes : Finset ℕ) : State Key :=
  { s with heap := s.heap.restrict nodes }

/-- A program that changes nothing returns the same when all but so many nodes are taken away. -/
def InspectsAtMost {α : Type} (count : ℕ) (program : TreeM Key α) (s : State Key) : Prop :=
  ∃ nodes : Finset ℕ, nodes.card ≤ count ∧ ∃ value, program s = .ok value s ∧
    program (s.restrict nodes) = .ok value (s.restrict nodes)

namespace InspectsAtMost

variable {α β : Type} {count : ℕ} {program : TreeM Key α} {s : State Key}

theorem mono {more : ℕ} (h : InspectsAtMost count program s) (hmore : count ≤ more) :
    InspectsAtMost more program s := by
  obtain ⟨nodes, hcard, hvalue⟩ := h
  exact ⟨nodes, hcard.trans hmore, hvalue⟩

/-- What is computed from the result inspects no further node. -/
theorem map (h : InspectsAtMost count program s) (change : α → β) :
    InspectsAtMost count (do return change (← program)) s := by
  obtain ⟨nodes, hcard, value, hrun, hrun'⟩ := h
  exact ⟨nodes, hcard, change value, bind_ok hrun, bind_ok hrun'⟩

end InspectsAtMost

/-! ### Descents -/

/-- A loop that inspects one node in each iteration. The comparison with the key of the node picks
the side on which the loop goes on, or stops it. -/
structure IsDescent {α σ : Type} (turn : Key → Option Side) (loop : ℕ → Ptr → σ → TreeM Key α) :
    Prop where
  nil : ∀ found, ∃ value, ∀ bound s, loop (bound + 1) .nil found s = .ok value s
  stop : ∀ found address (node : RBNode Key), turn node.data = none → ∃ value, ∀ bound s,
    s.fuse = none → s.heap.cell address = some node →
      loop (bound + 1) (.node address) found s = .ok value s
  go : ∀ found address (node : RBNode Key) side, turn node.data = some side → ∃ found',
    ∀ bound s, s.fuse = none → s.heap.cell address = some node →
      loop (bound + 1) (.node address) found s = loop bound (node.child side) found' s

/-- The nodes on the way down from a pointer. -/
inductive Traversal (turn : Key → Option Side) (heap : Heap ℕ (RBNode Key)) : Ptr → List ℕ → Prop
  | nil : Traversal turn heap .nil []
  | stop {address : ℕ} {node : RBNode Key} (hcell : heap.cell address = some node)
      (hturn : turn node.data = none) : Traversal turn heap (.node address) [address]
  | go {address : ℕ} {node : RBNode Key} {side : Side} {rest : List ℕ}
      (hcell : heap.cell address = some node) (hturn : turn node.data = some side)
      (hrest : Traversal turn heap (node.child side) rest) :
      Traversal turn heap (.node address) (address :: rest)

section Traversals

variable {turn : Key → Option Side} {heap : Heap ℕ (RBNode Key)} {ptr : Ptr} {nodes : List ℕ}

/-- The nodes on the way down are live. -/
theorem Traversal.live (h : Traversal turn heap ptr nodes) : ∀ address ∈ nodes,
    address ∈ heap.live := by
  have hlive {address : ℕ} {node : RBNode Key} (hcell : heap.cell address = some node) :
      address ∈ heap.live := by
    rw [heap.mem_live, hcell]
    rfl
  induction h with
  | nil => simp
  | stop hcell hturn => simpa using hlive hcell
  | go hcell hturn hrest ih => exact List.forall_mem_cons.mpr ⟨hlive hcell, ih⟩

/-- A descent returns the same in every memory that has the nodes on the way down. -/
theorem Traversal.run {α σ : Type} {loop : ℕ → Ptr → σ → TreeM Key α}
    (hdescent : IsDescent turn loop) (h : Traversal turn heap ptr nodes) (found : σ) :
    ∃ value, ∀ (s : State Key) (bound : ℕ), s.fuse = none →
      (∀ address ∈ nodes, s.heap.cell address = heap.cell address) → nodes.length < bound →
        loop bound ptr found s = .ok value s := by
  induction h generalizing found with
  | nil =>
    obtain ⟨value, hrun⟩ := hdescent.nil found
    refine ⟨value, ?_⟩
    intro s bound hfuse hcells hbound
    obtain ⟨bound, rfl⟩ : ∃ count, bound = count + 1 := ⟨bound - 1, by omega⟩
    exact hrun bound s
  | @stop address node hcell hturn =>
    obtain ⟨value, hrun⟩ := hdescent.stop found address node hturn
    refine ⟨value, ?_⟩
    intro s bound hfuse hcells hbound
    obtain ⟨bound, rfl⟩ : ∃ count, bound = count + 1 := ⟨bound - 1, by omega⟩
    exact hrun bound s hfuse ((hcells address (by simp)).trans hcell)
  | @go address node side rest hcell hturn hrest ih =>
    obtain ⟨found', hrun⟩ := hdescent.go found address node side hturn
    obtain ⟨value, hbelow⟩ := ih found'
    refine ⟨value, ?_⟩
    intro s bound hfuse hcells hbound
    obtain ⟨bound, rfl⟩ : ∃ count, bound = count + 1 := ⟨bound - 1, by omega⟩
    obtain ⟨hhere, hcells⟩ := List.forall_mem_cons.mp hcells
    rw [List.length_cons] at hbound
    exact (hrun bound s hfuse (hhere.trans hcell)).trans (hbelow s bound hfuse hcells (by omega))

/-- A descent from the root inspects the nodes on the way down and no others. -/
theorem Traversal.inspects {α σ : Type} {loop : ℕ → Ptr → σ → TreeM Key α} {s : State Key}
    (hdescent : IsDescent turn loop) (h : Traversal turn s.heap s.root nodes)
    (hnodup : nodes.Nodup) (hfuse : s.fuse = none) (found : σ) :
    InspectsAtMost nodes.length (do loop (← fuel) (← get).root found) s := by
  obtain ⟨value, hrun⟩ := h.run hdescent found
  have hsubset : nodes.toFinset ⊆ s.heap.live := by
    intro address hmem
    exact h.live address (List.mem_toFinset.mp hmem)
  have hcard : nodes.toFinset.card = nodes.length := List.toFinset_card_of_nodup hnodup
  refine ⟨nodes.toFinset, hcard.le, value, ?_, ?_⟩
  · have hlive := Finset.card_le_card hsubset
    exact hrun s _ hfuse (fun _ _ ↦ rfl) (by omega)
  · have hlive : (s.restrict nodes.toFinset).heap.live.card = nodes.length := by
      rw [State.restrict, Heap.live_restrict, Finset.inter_eq_right.mpr hsubset, hcard]
    refine hrun (s.restrict nodes.toFinset) _ hfuse ?_ (by omega)
    intro address hmem
    exact if_pos (List.mem_toFinset.mpr hmem)

end Traversals

/-! ### The loops of the source -/

/-- Where `FindNode` and `Insert` go from a node. -/
def searchTurn (params : Params Key) (key data : Key) : Option Side :=
  if params.comp key data then some .left else if params.comp data key then some .right else none

/-- Where `LowerBoundImpl` goes from a node. -/
def lowerTurn (params : Params Key) (key data : Key) : Option Side :=
  if params.comp data key then some .right else some .left

/-- Where `UpperBoundImpl` goes from a node. -/
def upperTurn (params : Params Key) (key data : Key) : Option Side :=
  if params.comp key data then some .left else some .right

theorem findNodeLoop_isDescent (params : Params Key) (key : Key) :
    IsDescent (searchTurn params key) fun bound ptr (_ : Unit) ↦
      findNodeLoop params key bound ptr := by
  refine ⟨fun _ ↦ ⟨.nil, fun _ _ ↦ rfl⟩, ?_, ?_⟩
  · intro _ address node hturn
    refine ⟨.node address, ?_⟩
    intro bound s _ hcell
    unfold searchTurn at hturn
    split_ifs at hturn with hlt hgt
    refine (bind_ok (read_node hcell)).trans ?_
    rw [if_neg hlt, if_neg hgt]
    rfl
  · intro _ address node side hturn
    refine ⟨(), ?_⟩
    intro bound s _ hcell
    unfold searchTurn at hturn
    refine (bind_ok (read_node hcell)).trans ?_
    split_ifs at hturn with hlt hgt
    · cases hturn
      rw [if_pos hlt]
      exact bind_ok (read_node hcell)
    · cases hturn
      rw [if_neg hlt, if_pos hgt]
      exact bind_ok (read_node hcell)

theorem lowerBoundLoop_isDescent (params : Params Key) (key : Key) :
    IsDescent (lowerTurn params key) (lowerBoundLoop params key) := by
  refine ⟨fun found ↦ ⟨found, fun _ _ ↦ rfl⟩, ?_, ?_⟩
  · intro found address node hturn
    unfold lowerTurn at hturn
    split_ifs at hturn
  · intro found address node side hturn
    unfold lowerTurn at hturn
    split_ifs at hturn with hlt
    · cases hturn
      refine ⟨found, ?_⟩
      intro bound s _ hcell
      refine (bind_ok (read_node hcell)).trans ?_
      rw [if_pos hlt]
      exact bind_ok (read_node hcell)
    · cases hturn
      refine ⟨.node address, ?_⟩
      intro bound s _ hcell
      refine (bind_ok (read_node hcell)).trans ?_
      rw [if_neg hlt]
      exact bind_ok (read_node hcell)

theorem upperBoundLoop_isDescent (params : Params Key) (key : Key) :
    IsDescent (upperTurn params key) (upperBoundLoop params key) := by
  refine ⟨fun found ↦ ⟨found, fun _ _ ↦ rfl⟩, ?_, ?_⟩
  · intro found address node hturn
    unfold upperTurn at hturn
    split_ifs at hturn
  · intro found address node side hturn
    unfold upperTurn at hturn
    split_ifs at hturn with hlt
    · cases hturn
      refine ⟨.node address, ?_⟩
      intro bound s _ hcell
      refine (bind_ok (read_node hcell)).trans ?_
      rw [if_pos hlt]
      exact bind_ok (read_node hcell)
    · cases hturn
      refine ⟨found, ?_⟩
      intro bound s _ hcell
      refine (bind_ok (read_node hcell)).trans ?_
      rw [if_neg hlt]
      exact bind_ok (read_node hcell)

theorem insertDescend_isDescent (params : Params Key) (key : Key) :
    IsDescent (searchTurn params key) (insertDescend params key) := by
  refine ⟨fun found ↦ ⟨some found, fun _ _ ↦ rfl⟩, ?_, ?_⟩
  · intro found address node hturn
    refine ⟨none, ?_⟩
    intro bound s hfuse hcell
    unfold searchTurn at hturn
    split_ifs at hturn with hlt hgt
    refine (insertDescend_here hcell (State.unfused hfuse 3) hlt hgt _).trans ?_
    rw [State.burnt hfuse]
  · intro found address node side hturn
    refine ⟨.node address, ?_⟩
    intro bound s hfuse hcell
    unfold searchTurn at hturn
    split_ifs at hturn with hlt hgt
    · cases hturn
      refine (insertDescend_left hcell (State.unfused hfuse 2) hlt _).trans ?_
      rw [State.burnt hfuse]
      rfl
    · cases hturn
      refine (insertDescend_right hcell (State.unfused hfuse 3) hlt hgt _).trans ?_
      rw [State.burnt hfuse]
      rfl

end StudStuff.RedBlackTree
