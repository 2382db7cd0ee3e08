import StudStuff.RedBlackTree.CopyFailure
import StudStuff.RedBlackTree.Positions

/-!
# Insertions that fail

The search of `Insert` copies the key of every node it meets and compares it once or twice
(`Tree.searchCost`). If one of these operations throws, or the creation of the new node does,
nothing has changed (`Represents.insertDescend_throws`). One operation that may throw is left, the
comparison that picks the side of the new node: it comes when the node exists and the size has been
raised, and nothing takes either back when it throws (`insertUnder_leaks`). It is the only one of
which an insertion does not recover (`insertAtomic_iff`).
-/

set_option autoImplicit false
set_option relaxedAutoImplicit false

namespace StudStuff.RedBlackTree

open Lib

variable {Key : Type} {params : Params Key}

/-! ### The search -/

/-- The operations of the search that may throw: for each node on the way the copy of its key, and
one or two comparisons. -/
def Tree.searchCost (params : Params Key) (val : Key) : Tree Key → ℕ
  | nil => 0
  | node _ _ left key right =>
    if params.comp val key then left.searchCost params val + 2
    else if params.comp key val then right.searchCost params val + 3
    else 3

/-- The node the search ends under, if it does not end at an equivalent key. -/
def Tree.place (params : Params Key) (val : Key) : Tree Key → Ptr → Option Ptr
  | nil, parent => some parent
  | node address _ left key right, _ =>
    if params.comp val key then left.place params val (.node address)
    else if params.comp key val then right.place params val (.node address)
    else none

/-- The search ends at an equivalent key, if it does not end under a node. -/
theorem Tree.exists_equivalent_of_place {val : Key} {tree : Tree Key} {parent : Ptr}
    (h : tree.place params val parent = none) :
    ∃ entry ∈ tree.inorder, equivalent params.comp val entry.2 = true := by
  induction tree generalizing parent with
  | nil => cases h
  | node address color left key right ihl ihr =>
    rw [place] at h
    split_ifs at h with hlt hgt
    · obtain ⟨entry, hmem, hentry⟩ := ihl h
      exact ⟨entry, by simp [hmem], hentry⟩
    · obtain ⟨entry, hmem, hentry⟩ := ihr h
      exact ⟨entry, by simp [hmem], hentry⟩
    · exact ⟨(address, key), by simp, by simp [equivalent, hlt, hgt]⟩

section Step

variable {s : State Key} {bound address : ℕ} {node : RBNode Key} {val : Key} {fuse : Option ℕ}

/-- One of the operations at a node throws. -/
theorem insertDescend_throws {count : ℕ} (hcell : s.heap.cell address = some node)
    (hfuse : s.fuse = some count)
    (hcount : count < if params.comp val node.data then 2 else 3) (parent : Ptr) :
    insertDescend params val (bound + 1) (.node address) parent s =
      .error .thrown { s with fuse := some 0 } := by
  by_cases hcopy : count = 0
  · subst hcopy
    rw [insertDescend, if_neg (by simp)]
    refine (bind_error (mayThrow_zero hfuse)).trans ?_
    rw [← hfuse]
  by_cases hfirst : count = 1
  · subst hfirst
    rw [insertDescend, if_neg (by simp)]
    refine (bind_ok (mayThrow_map (show _ = Option.map (· + 1) (some 0) from hfuse))).trans ?_
    refine (bind_ok (read_node (s := { s with fuse := some 0 }) hcell)).trans ?_
    exact bind_error (mayThrow_zero rfl)
  · have hlt : ¬params.comp val node.data = true := by
      intro hlt
      rw [if_pos hlt] at hcount
      omega
    rw [if_neg hlt] at hcount
    obtain rfl : count = 2 := by omega
    rw [insertDescend_step hcell (show _ = Option.map (· + 2) (some 0) from hfuse), if_neg hlt]
    exact bind_error (mayThrow_zero rfl)

end Step

section Search

variable {heap : Heap ℕ (RBNode Key)} {above ptr : Ptr} {tree : Tree Key} {s : State Key}
  {bound : ℕ} {val : Key}

/-- A search for which all operations succeed. -/
theorem Represents.insertDescend_finds (h : Represents heap above ptr tree)
    {fuse : Option ℕ} (hheap : s.heap = heap)
    (hfuse : s.fuse = fuse.map (· + tree.searchCost params val)) (hbound : tree.size < bound)
    (parent : Ptr) :
    insertDescend params val bound ptr parent s =
      .ok (tree.place params val parent) { s with fuse := fuse } := by
  induction h generalizing s bound parent with
  | nil above =>
    obtain ⟨bound, rfl⟩ : ∃ count, bound = count + 1 := ⟨bound - 1, by omega⟩
    have hsame : s.fuse = fuse := by simpa [Tree.searchCost] using hfuse
    rw [← hsame]
    rfl
  | @node above leftPtr rightPtr address color key left right hcell hleft hright ihl ihr =>
    obtain ⟨bound, rfl⟩ : ∃ count, bound = count + 1 := ⟨bound - 1, by omega⟩
    subst hheap
    rw [Tree.size] at hbound
    have hboundL : left.size < bound := by omega
    have hboundR : right.size < bound := by omega
    rw [Tree.searchCost] at hfuse
    rw [Tree.place]
    split_ifs at hfuse ⊢ with hlt hgt
    · have hstep : s.fuse = (fuse.map (· + left.searchCost params val)).map (· + 2) := by
        rw [hfuse, Option.map_map]
        rfl
      rw [insertDescend_left hcell hstep hlt]
      apply ihl
      · rfl
      · rfl
      · exact hboundL
    · have hstep : s.fuse = (fuse.map (· + right.searchCost params val)).map (· + 3) := by
        rw [hfuse, Option.map_map]
        rfl
      rw [insertDescend_right hcell hstep hlt hgt]
      apply ihr
      · rfl
      · rfl
      · exact hboundR
    · exact insertDescend_here hcell hfuse hlt hgt _

/-- A search in which an operation throws changes nothing. -/
theorem Represents.insertDescend_throws (h : Represents heap above ptr tree) {count : ℕ}
    (hheap : s.heap = heap) (hfuse : s.fuse = some count)
    (hcount : count < tree.searchCost params val) (hbound : tree.size < bound) (parent : Ptr) :
    insertDescend params val bound ptr parent s = .error .thrown { s with fuse := some 0 } := by
  induction h generalizing s bound parent count with
  | nil above => exact absurd hcount (Nat.not_lt_zero count)
  | @node above leftPtr rightPtr address color key left right hcell hleft hright ihl ihr =>
    obtain ⟨bound, rfl⟩ : ∃ count, bound = count + 1 := ⟨bound - 1, by omega⟩
    subst hheap
    rw [Tree.size] at hbound
    have hboundL : left.size < bound := by omega
    have hboundR : right.size < bound := by omega
    rw [Tree.searchCost] at hcount
    by_cases hnow : count < if params.comp val key then 2 else 3
    · exact RedBlackTree.insertDescend_throws hcell hfuse hnow _
    split_ifs at hcount hnow with hlt hgt
    · obtain ⟨count, rfl⟩ : ∃ rest, count = rest + 2 := ⟨count - 2, by omega⟩
      have hstep : s.fuse = Option.map (· + 2) (some count) := hfuse
      rw [insertDescend_left hcell hstep hlt]
      apply ihl
      · rfl
      · rfl
      · exact Nat.lt_of_add_lt_add_right hcount
      · exact hboundL
    · obtain ⟨count, rfl⟩ : ∃ rest, count = rest + 3 := ⟨count - 3, by omega⟩
      have hstep : s.fuse = Option.map (· + 3) (some count) := hfuse
      rw [insertDescend_right hcell hstep hlt hgt]
      apply ihr
      · rfl
      · rfl
      · exact Nat.lt_of_add_lt_add_right hcount
      · exact hboundR
    · exact absurd hcount hnow

end Search

/-! ### The new node -/

section Creation

variable {s : State Key}

/-- The rest of `Insert` when the new node cannot be made. -/
theorem insertUnder_throws {count : ℕ} (hfuse : s.fuse = some count) (hcount : count < 2)
    (val : Key) (parent : Ptr) :
    insertUnder params val parent s = .error .thrown { s with fuse := some 0 } :=
  bind_error (newNode_throws hfuse hcount val)

/-- The rest of `Insert` when the comparison after the creation throws: the new node is live and
counted, and nothing points to it. -/
theorem insertUnder_leaks (hfuse : s.fuse = some 2) (val : Key) (parent : Ptr) :
    insertUnder params val parent s = .error .thrown { s.prepared (s.nextAddress params)
      ⟨val, .red, parent, .nil, .nil⟩ with fuse := some 0 } := by
  unfold insertUnder
  refine (prepareNode_run (show _ = Option.map (· + 2) (some 0) from hfuse) val parent _).trans ?_
  exact bind_error (mayThrow_zero rfl)

end Creation

/-! ### Atomicity -/

/-- The state in which a number of operations that may throw succeed and the next one throws. -/
def State.failAfter (s : State Key) (count : ℕ) : State Key := { s with fuse := some count }

/-- A tree is left as it was. The same nodes are live, with the same keys, colours and links, so
that no node has been allocated that is not in the tree; and the size is still their number. -/
structure Untouched (s s' : State Key) : Prop where
  heap : s'.heap = s.heap
  root : s'.root = s.root
  size : s'.size = s.size
  counted : ∃ nodes : Finset ℕ,
    (∀ address, Reaches s'.heap s'.root address ↔ address ∈ nodes) ∧ s'.size = nodes.card

/-- When an insertion stops, an exception was thrown and the tree is left as it was. -/
def InsertAtomic (params : Params Key) (s : State Key) (val : Key) (count : ℕ) : Prop :=
  ∀ stop s', insert params val (s.failAfter count) = .error stop s' →
    stop = .thrown ∧ Untouched s s'

/-- The operation that throws is the comparison after the creation of the new node: the tree is not
empty, it has no equivalent key, and the operations of the search and of the creation succeed. -/
def ThrowsAtLink (params : Params Key) (s : State Key) (val : Key) (count : ℕ) : Prop :=
  ∃ tree, Represents s.heap .nil s.root tree ∧ tree ≠ .nil ∧
    (∀ entry ∈ tree.inorder, equivalent params.comp val entry.2 = false) ∧
    count = tree.searchCost params val + 2

namespace Laid

variable {s background : State Key} {tree : Tree Key} {val : Key} {count : ℕ}

/-- A state with the same heap and the same fields is untouched. -/
theorem untouched (h : Laid params s background tree) : Untouched s (s.failAfter 0) := by
  refine ⟨rfl, rfl, rfl, tree.addresses.toFinset, ?_, ?_⟩
  · intro address
    rw [List.mem_toFinset]
    exact h.reaches_iff address
  · rw [List.toFinset_card_of_nodup h.fits.nodup, Tree.length_addresses]
    exact h.size_eq

/-- The layout does not depend on the operations that may throw. -/
theorem failAfter_eq (h : Laid params s background tree) (count : ℕ) :
    s.failAfter count = lay { background with fuse := some count } tree := by
  rw [State.failAfter, h.state]
  rfl

theorem root_ne_nil (h : Laid params s background tree) (hne : tree ≠ .nil) : s.root ≠ .nil := by
  rw [h.state, root_lay]
  exact mt (Tree.ptr_eq_nil_iff tree).mp hne

/-- The search of `Insert`, when all its operations succeed. -/
theorem insert_found (h : Laid params s background tree) (hne : tree ≠ .nil) (val : Key)
    (rest : ℕ) :
    insert params val (s.failAfter (tree.searchCost params val + rest)) =
      (match tree.place params val .nil with
        | none => return endIterator
        | some parent => insertUnder params val parent : TreeM Key Iterator)
          (s.failAfter rest) := by
  have hlive : tree.size < s.heap.live.card + 2 := by
    have hsize := size_le_live h.fits
    rw [← h.state] at hsize
    omega
  have hfuse : (s.failAfter (tree.searchCost params val + rest)).fuse =
      Option.map (· + tree.searchCost params val) (some rest) :=
    congrArg some (Nat.add_comm ..)
  refine (insert_search (s := s.failAfter _) (h.root_ne_nil hne) val).trans ?_
  exact bind_ok (h.represents.insertDescend_finds (s := s.failAfter _) rfl hfuse hlive .nil)

/-- An insertion that throws before the new node exists. -/
theorem insert_throws (h : Laid params s background tree) (hne : tree ≠ .nil)
    (hcount : count < tree.searchCost params val) :
    insert params val (s.failAfter count) = .error .thrown (s.failAfter 0) := by
  have hlive : tree.size < s.heap.live.card + 2 := by
    have hsize := size_le_live h.fits
    rw [← h.state] at hsize
    omega
  refine (insert_search (s := s.failAfter _) (h.root_ne_nil hne) val).trans ?_
  exact bind_error
    (h.represents.insertDescend_throws (s := s.failAfter count) rfl rfl hcount hlive .nil)

/-- `Insert` into an empty tree. -/
theorem insert_nil (h : Laid params s background .nil) (val : Key) (count : ℕ) :
    (∃ it s', insert params val (s.failAfter count) = .ok it s') ∨
      insert params val (s.failAfter count) = .error .thrown (s.failAfter 0) := by
  rw [h.failAfter_eq, h.failAfter_eq]
  by_cases hcount : count < 2
  · refine Or.inr ((bind_ok (show empty _ = .ok true _ from rfl)).trans ?_)
    exact bind_error (newNode_throws rfl hcount val)
  · obtain ⟨count, rfl⟩ : ∃ rest, count = rest + 2 := ⟨count - 2, by omega⟩
    exact Or.inl ⟨_, _, insert_empty (some count) rfl rfl⟩

/-- An insertion that throws at the comparison after the creation has raised the size. -/
theorem insert_leaks (h : Laid params s background tree)
    (hlink : ThrowsAtLink params s val count) :
    ∃ s', insert params val (s.failAfter count) = .error .thrown s' ∧ s'.size = s.size + 1 := by
  obtain ⟨tree', htree, hne, habsent, rfl⟩ := hlink
  obtain rfl := htree.unique h.represents
  rw [h.insert_found hne]
  cases hplace : tree'.place params val .nil with
  | none =>
    obtain ⟨entry, hmem, hentry⟩ := Tree.exists_equivalent_of_place hplace
    rw [habsent entry hmem] at hentry
    cases hentry
  | some parent => exact ⟨_, insertUnder_leaks rfl val parent, rfl⟩

section Outcomes

variable [IsStrictWeakOrder Key fun first second ↦ params.comp first second = true]

/-- The search ends at an empty place, which cuts the listing at the key. -/
theorem exists_place (h : Laid params s background tree) {parent : Ptr}
    (hplace : tree.place params val .nil = some parent) :
    ∃ frames, plug .nil frames = tree ∧ CutAt params.comp val frames ∧ parent = hole frames := by
  have hfuse : s.fuse = none := by
    rw [h.state]
    exact h.fuse
  have hfound : insertDescend params val (tree.size + 1) s.root .nil s = _ :=
    h.represents.insertDescend_finds rfl (show s.fuse = none.map _ from hfuse)
      (Nat.lt_succ_self _) .nil
  have hagree {result : Option Ptr} (hrun : Descends params val tree [] result) :
      result = some parent := by
    have hsame : insertDescend params val (tree.size + 1) s.root .nil s = .ok result s := by
      rw [h.state]
      exact hrun background _ h.fits h.fuse (Nat.lt_succ_self _)
    rw [← hplace]
    exact (EStateM.Result.ok.inj (hsame.symm.trans hfound)).1
  rcases insertDescend_lay h.good.sorted
    (show CutAt params.comp val [] from ⟨by simp [before], by simp [after]⟩) with
    ⟨-, -, -, hrun⟩ | ⟨frames, hplug, hcut, hrun⟩
  · cases hagree hrun
  · exact ⟨frames, hplug, hcut, (Option.some.inj (hagree hrun)).symm⟩

/-- The rest of `Insert` when the comparison after the creation does not throw. -/
theorem insertUnder_returns (h : Laid params s background tree) (hne : tree ≠ .nil) {parent : Ptr}
    (hplace : tree.place params val .nil = some parent) (rest : ℕ) :
    ∃ it s', insertUnder params val parent (s.failAfter (rest + 3)) = .ok it s' := by
  obtain ⟨frames, rfl, hcut, rfl⟩ := h.exists_place hplace
  cases frames with
  | nil => exact absurd rfl hne
  | cons frame outer =>
    obtain ⟨height, hbalanced⟩ := h.good.balanced
    obtain ⟨tree', -, -, -, hunder⟩ := insertUnder_run hbalanced hcut
      ((lay background (plug .nil (frame :: outer))).nextAddress params)
    rw [h.failAfter_eq]
    exact ⟨_, _, hunder { background with fuse := some (rest + 3) } (some rest)
      ⟨h.fits.nodup, h.fits.free⟩ rfl h.nil rfl⟩

/-- An insertion that does not throw at the comparison after the creation returns, or it throws and
has changed nothing. -/
theorem insert_outcome (h : Laid params s background tree)
    (hlink : ¬ThrowsAtLink params s val count) :
    (∃ it s', insert params val (s.failAfter count) = .ok it s') ∨
      insert params val (s.failAfter count) = .error .thrown (s.failAfter 0) := by
  by_cases hne : tree = .nil
  · subst hne
    exact h.insert_nil val count
  by_cases hcount : count < tree.searchCost params val
  · exact Or.inr (h.insert_throws hne hcount)
  obtain ⟨rest, rfl⟩ := Nat.exists_eq_add_of_le (Nat.le_of_not_lt hcount)
  rw [h.insert_found hne]
  cases hplace : tree.place params val .nil with
  | none => exact Or.inl ⟨endIterator, _, rfl⟩
  | some parent =>
    by_cases hcreate : rest < 2
    · exact Or.inr (insertUnder_throws rfl hcreate val parent)
    by_cases hrest : rest = 2
    · obtain ⟨frames, hplug, hcut, -⟩ := h.exists_place hplace
      subst hrest
      refine absurd ⟨tree, h.represents, hne, ?_, rfl⟩ hlink
      rw [← hplug]
      exact hcut.absent
    · obtain ⟨rest, rfl⟩ : ∃ more, rest = more + 3 := ⟨rest - 3, by omega⟩
      exact Or.inl (h.insertUnder_returns hne hplace rest)

end Outcomes

end Laid

/-! ### Runs in which insertions fail -/

/-- The memory in which nothing throws any more. -/
def World.failNever {Store : Type} (world : World Key Store) : World Key Store :=
  { world with core := { world.core with fuse := none } }

/-- A run of operations in which insertions may throw, but not at the comparison after the creation
of the node. The program catches the exception and goes on. -/
inductive FaultyRun (params : Params Key) : World Key (SentinelPolicy.shared params).Store → Prop
  | start : FaultyRun params ⟨Core.start Key, .sentinel params⟩
  | step {world world' : World Key (SentinelPolicy.shared params).Store} (op : Op Key)
      {output : Output Key} (hrun : FaultyRun params world) (hvalid : op.Valid world.core)
      (hexec : exec (.shared params) op world = .ok output world') : FaultyRun params world'
  | fail {world world' : World Key (SentinelPolicy.shared params).Store} {name : ℕ} {key : Key}
      {count : ℕ} {object : TreeObject} {stop : Stop} (hrun : FaultyRun params world)
      (hobject : world.core.objects (.named name) = some object)
      (hlink : ¬ThrowsAtLink params (world.enter (.shared params) (.named name) object) key count)
      (hexec : exec (.shared params) (.insert name key) (world.failAfter count) =
        .error stop world') : FaultyRun params world'.failNever

section Runs

variable {world world' : World Key (SentinelPolicy.shared params).Store} {name : ℕ} {key : Key}
  {count : ℕ} {object : TreeObject}

/-- Calling a member function of an object when an operation throws. -/
theorem member_failAfter {α : Type} (hobject : world.core.objects (.named name) = some object)
    (program : TreeM Key α) (count : ℕ) :
    member (.shared params) (.named name) program (world.failAfter count) =
      match program ((world.enter (.shared params) (.named name) object).failAfter count) with
      | .ok value s => .ok value (world.leave (.shared params) (.named name) s)
      | .error stop s => .error stop (world.leave (.shared params) (.named name) s) := by
  simp only [member, World.failAfter, hobject]
  rfl

/-- Leaving a state that only the failure has changed. -/
theorem World.failNever_leave (hobject : world.core.objects (.named name) = some object)
    (hfuse : world.core.fuse = none) (count : ℕ) :
    (world.leave (.shared params) (.named name)
      ((world.enter (.shared params) (.named name) object).failAfter count)).failNever = world := by
  have hobjects : Function.update world.core.objects (.named name)
      (some ⟨object.root, object.size⟩) = world.core.objects := by
    rw [← hobject]
    exact Function.update_eq_self ..
  obtain ⟨⟨heap, allocated, freed, fuse, objects⟩, sentinels⟩ := world
  obtain rfl : fuse = none := hfuse
  simp only [World.failNever, World.leave, World.enter, State.failAfter, hobjects]
  rfl

variable [IsStrictWeakOrder Key fun first second ↦ params.comp first second = true]

/-- A failed insertion leaves the world as it was. -/
theorem Reachable.failNever_eq (hreach : Reachable params world) {stop : Stop}
    (hobject : world.core.objects (.named name) = some object)
    (hlink : ¬ThrowsAtLink params (world.enter (.shared params) (.named name) object) key count)
    (hexec : exec (.shared params) (.insert name key) (world.failAfter count) =
      .error stop world') : world'.failNever = world := by
  have hs : (world.enter (.shared params) (.named name) object).Reachable params :=
    ⟨world, name, object, hreach, hobject, rfl⟩
  obtain ⟨background, tree, hlaid⟩ := hs.laid
  have hmember := member_failAfter hobject (RedBlackTree.insert params key) count
  rcases hlaid.insert_outcome hlink with ⟨it, s', hinsert⟩ | hinsert
  · rw [hinsert] at hmember
    cases (bind_ok hmember).symm.trans hexec
  · rw [hinsert] at hmember
    cases (bind_error hmember).symm.trans hexec
    obtain ⟨trace, hrun⟩ := hreach
    obtain ⟨⟨shapes, hinv⟩, -, -⟩ := hrun.invariant fun _ ↦ isSentinel_sentinel params
    exact World.failNever_leave hobject hinv.fuse 0

/-- The worlds of a run in which insertions fail are those of a run in which nothing fails. -/
theorem FaultyRun.reachable (hrun : FaultyRun params world) : Reachable params world := by
  induction hrun with
  | start => exact ⟨[], .start⟩
  | step op hrun hvalid hexec ih =>
    obtain ⟨trace, htrace⟩ := ih
    exact ⟨_, htrace.step op hvalid hexec⟩
  | fail hrun hobject hlink hexec ih =>
    rw [ih.failNever_eq hobject hlink hexec]
    exact ih

/-- Insertions of a run are atomic, except for those that throw at the comparison after the creation
of the node. -/
theorem insertAtomic_iff (hrun : FaultyRun params world)
    (hobject : world.core.objects (.named name) = some object) (key : Key) (count : ℕ) :
    InsertAtomic params (world.enter (.shared params) (.named name) object) key count ↔
      ¬ThrowsAtLink params (world.enter (.shared params) (.named name) object) key count := by
  have hs : (world.enter (.shared params) (.named name) object).Reachable params :=
    ⟨world, name, object, hrun.reachable, hobject, rfl⟩
  obtain ⟨background, tree, hlaid⟩ := hs.laid
  constructor
  · intro hatomic hlink
    obtain ⟨s', hinsert, hsize⟩ := hlaid.insert_leaks hlink
    have hsame := (hatomic _ _ hinsert).2.size
    omega
  · intro hlink stop s' hinsert
    rcases hlaid.insert_outcome hlink with ⟨it, s'', hreturns⟩ | hthrows
    · cases hreturns.symm.trans hinsert
    · cases hthrows.symm.trans hinsert
      exact ⟨rfl, hlaid.untouched⟩

end Runs

/-- A program with one object, a tree of one natural number. -/
theorem FaultyRun.exists_single : ∃ world, FaultyRun Params.naturals world ∧
    world.core.objects (.named 0) = some ⟨.node 1, 1⟩ ∧
      world.core.heap.cell 1 = some ⟨5, .black, .nil, .nil, .nil⟩ := by
  have hstart : FaultyRun Params.naturals ⟨Core.start ℕ, .sentinel Params.naturals⟩ := .start
  have hmade := hstart.step (.construct 0) (by rintro ⟨object, hobject⟩; cases hobject) rfl
  have hinserted := hmade.step (.insert 0 5) ⟨_, rfl⟩ rfl
  exact ⟨_, hinserted, rfl, rfl⟩

/-- The tree of a single natural number, when the allocation for another one throws. -/
theorem insertAtomic_iff_single : ∃ world, FaultyRun Params.naturals world ∧
    world.core.objects (.named 0) = some ⟨.node 1, 1⟩ ∧
      (InsertAtomic Params.naturals
          (world.enter (.shared Params.naturals) (.named 0) ⟨.node 1, 1⟩) 7 3 ↔
        ¬ThrowsAtLink Params.naturals
          (world.enter (.shared Params.naturals) (.named 0) ⟨.node 1, 1⟩) 7 3) := by
  obtain ⟨world, hrun, hobject, -⟩ := FaultyRun.exists_single
  exact ⟨world, hrun, hobject, insertAtomic_iff hrun hobject 7 3⟩

/-- The tree of a single natural number, when the comparison of another one with it throws once the
new node exists: the size is two, and there is one node in the tree. -/
theorem insert_breaks_atomicity : ∃ world, FaultyRun Params.naturals world ∧
    world.core.objects (.named 0) = some ⟨.node 1, 1⟩ ∧
      ¬InsertAtomic Params.naturals
        (world.enter (.shared Params.naturals) (.named 0) ⟨.node 1, 1⟩) 7 5 := by
  obtain ⟨world, hrun, hobject, hcell⟩ := FaultyRun.exists_single
  refine ⟨world, hrun, hobject, ?_⟩
  have hlink : ThrowsAtLink Params.naturals
      (world.enter (.shared Params.naturals) (.named 0) ⟨.node 1, 1⟩) 7 5 := by
    refine ⟨.node 1 .black .nil 5 .nil, .node hcell (.nil _) (.nil _), by simp, ?_, rfl⟩
    simp [equivalent, Params.naturals]
  have hs : (world.enter (.shared Params.naturals) (.named 0) ⟨.node 1, 1⟩).Reachable
      Params.naturals := ⟨world, 0, _, hrun.reachable, hobject, rfl⟩
  obtain ⟨background, tree, hlaid⟩ := hs.laid
  obtain ⟨s', hinsert, hsize⟩ := hlaid.insert_leaks hlink
  intro hatomic
  have hsame := (hatomic _ _ hinsert).2.size
  omega

end StudStuff.RedBlackTree
