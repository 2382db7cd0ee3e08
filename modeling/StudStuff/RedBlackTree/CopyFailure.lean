import StudStuff.RedBlackTree.Runs

/-!
# Copies that fail

A copy of a tree takes two operations that may throw for each node, the allocation and the copy of
the key. When they suffice the copy is made (`copyRecursive_made`); when one throws, the handler of
the frame in which it happens clears a pointer that is still null (`copyRecursive_crashes`), because
the exception comes from the `new` that was to set it. So no failed copy is ever cleaned up
(`copy_never_fails_cleanly`).
-/

set_option autoImplicit false
set_option relaxedAutoImplicit false

namespace StudStuff.RedBlackTree

open Lib

variable {Key : Type} {params : Params Key}

/-! ### Exceptions inside a copy -/

section Handlers

variable {s s' : State Key}

theorem mayThrow_zero (h : s.fuse = some 0) : mayThrow s = .error .thrown s := by
  rw [mayThrow, h]

/-- No node is made when one of its two operations throws. -/
theorem newNode_throws {count : ℕ} (h : s.fuse = some count) (hcount : count < 2) (key : Key) :
    newNode params key s = .error .thrown { s with fuse := some 0 } := by
  unfold newNode
  match count, h with
  | 0, h =>
    refine (bind_error (mayThrow_zero h)).trans ?_
    rw [← h]
  | 1, h =>
    refine (bind_ok (mayThrow_map (show _ = Option.map (· + 1) (some 0) from h))).trans ?_
    exact bind_error (mayThrow_zero rfl)

/-- Clearing a null pointer reads through it. -/
theorem clearRecursive_null (s : State Key) :
    (do clearRecursive (← fuel) .null : TreeM Key Unit) s = .error (.fault .badAccess) s := by
  refine (bind_ok (fuel_apply s)).trans ?_
  rfl

/-- A handler that clears a null pointer. -/
theorem onThrow_null {α : Type} {body : TreeM Key α} (h : body s = .error .thrown s') :
    onThrow body (do clearRecursive (← fuel) .null) s = .error (.fault .badAccess) s' := by
  rw [onThrow, h]
  exact bind_error (clearRecursive_null s')

/-- A fault is no exception. -/
theorem onThrow_fault {α : Type} {body : TreeM Key α} {handler : TreeM Key Unit} {reason : Fault}
    (h : body s = .error (.fault reason) s') :
    onThrow body handler s = .error (.fault reason) s' := by
  rw [onThrow, h]

end Handlers

/-! ### The copy of a tree -/

section Copies

/-- A copy for which all operations succeed. -/
theorem copyRecursive_made (params : Params Key) {source : Tree Key} {parent : Ptr}
    (newParent : Ptr) {s : State Key} {bound count : ℕ} (h : Present s.heap parent source)
    (hnodup : source.addresses.Nodup) (hfuse : s.fuse = some (2 * source.size + count))
    (hbound : source.size < bound) :
    ∃ copy s', copyRecursive params bound source.ptr newParent s = .ok copy s' ∧
      s'.fuse = some count ∧ s.Grows s' := by
  obtain ⟨copy, -, -, hfree, hrun⟩ := copyRecursive_run params newParent h hnodup hbound
  have hcopy := hrun s.nilNode (some count)
  rw [Option.map_some, ← hfuse] at hcopy
  exact ⟨_, _, hcopy, rfl, grows_built hfree⟩

/-- A copy for which an operation throws ends in an access through a null pointer. -/
theorem copyRecursive_crashes (params : Params Key) {source : Tree Key} {parent : Ptr}
    (newParent : Ptr) {s : State Key} {bound count : ℕ} (h : Present s.heap parent source)
    (hnodup : source.addresses.Nodup) (hfuse : s.fuse = some count)
    (hcount : count < 2 * source.size) (hbound : source.size < bound) :
    ∃ s', copyRecursive params bound source.ptr newParent s = .error (.fault .badAccess) s' := by
  induction source generalizing parent newParent s bound count with
  | nil => exact absurd hcount (Nat.not_lt_zero count)
  | node address color left key right ihl ihr =>
    obtain ⟨bound, rfl⟩ : ∃ count, bound = count + 1 := ⟨bound - 1, by omega⟩
    rw [Tree.size] at hbound hcount
    have hleft := h.goLeft hnodup
    have hright := h.goRight hnodup
    have hroot := h.root
    simp only [Tree.addresses_node, List.nodup_append, List.nodup_cons] at hnodup
    by_cases hnew : count < 2
    · -- The new node cannot be made, and the handler clears the null pointer.
      have hbody : (do newNode params (← read (.node address)).data : TreeM Key Ptr) s =
          .error .thrown { s with fuse := some 0 } :=
        (bind_ok (read_node hroot)).trans (newNode_throws hfuse hnew key)
      rw [copyRecursive, Tree.ptr_node, if_neg (by simp)]
      exact ⟨_, bind_error (onThrow_null hbody)⟩
    · obtain ⟨count, rfl⟩ : ∃ rest, count = rest + 2 := ⟨count - 2, by omega⟩
      have hfresh := cell_nextAddress s params
      have hrun := copyRecursive_node params bound newParent hroot
        (show _ = Option.map (· + 2) (some count) from hfuse)
      set fresh := s.nextAddress params
      set s₁ : State Key :=
        { s.sprouted fresh key color newParent with fuse := some count } with hs₁
      have hgrows₁ : s.Grows s₁ := grows_sprouted hfresh
      have hcell₁ : s₁.heap.cell fresh = some ⟨key, color, newParent, .null, .null⟩ := if_pos rfl
      have hfuse₁ : s₁.fuse = some count := rfl
      suffices hbody : ∃ s', copyChildren params bound (.node address) (.node fresh) s₁ =
          .error (.fault .badAccess) s' by
        obtain ⟨s', hbody⟩ := hbody
        exact ⟨s', hrun.trans (bind_error (onThrow_fault hbody))⟩
      by_cases hcountL : count < 2 * left.size
      · obtain ⟨s', hcrash⟩ := ihl (.node fresh) (hgrows₁.present hleft) hnodup.1 hfuse₁ hcountL
          (show left.size < bound by omega)
        refine ⟨s', ?_⟩
        unfold copyChildren
        exact (bind_ok (read_node (hgrows₁ _ _ hroot))).trans (bind_error hcrash)
      · obtain ⟨count, rfl⟩ : ∃ rest, count = 2 * left.size + rest :=
          ⟨count - 2 * left.size, by omega⟩
        obtain ⟨copyL, s₂, hrunL, hfuse₂, hgrows₂⟩ := copyRecursive_made params (.node fresh)
          (hgrows₁.present hleft) hnodup.1 hfuse₁ (show left.size < bound by omega)
        have hgrows₃ := (hgrows₁.trans hgrows₂).assign hfresh fun node ↦ node.setChild .left copyL
        obtain ⟨s', hcrash⟩ := ihr (.node fresh) (hgrows₃.present hright) hnodup.2.1.2 hfuse₂
          (by omega) (show right.size < bound by omega)
        refine ⟨s', ?_⟩
        rw [copyChildren_left (hgrows₁ _ _ hroot) hrunL ((hgrows₁.trans hgrows₂) _ _ hroot)
          (hgrows₂ fresh _ hcell₁) (ne_of_cell hroot hfresh)]
        exact bind_error hcrash

end Copies

/-! ### Copying objects -/

/-- The memory in which a number of operations that may throw succeed and the next one throws. -/
def World.failAfter {Store : Type} (world : World Key Store) (count : ℕ) : World Key Store :=
  { world with core := { world.core with fuse := some count } }

/-- A failed copy should end with the exception. It should free all nodes it has allocated, once
each, and leave the heap and all objects as they were, save the one under construction. -/
def FailsCleanly {Store : Type} (program : WorldM Key Store Unit) (world : World Key Store)
    (unfinished : ObjectName) : Prop :=
  ∃ world', program world = .error .thrown world' ∧ world'.core.heap = world.core.heap ∧
    world'.core.freed + world.core.allocated = world.core.freed + world'.core.allocated ∧
    ∀ name, name ≠ unfinished → world'.core.objects name = world.core.objects name

/-- A program that ends with an access through a null pointer does not fail cleanly. -/
theorem not_failsCleanly {Store : Type} {program : WorldM Key Store Unit}
    {world world' : World Key Store} {reason : Fault}
    (h : program world = .error (.fault reason) world') (unfinished : ObjectName) :
    ¬FailsCleanly program world unfinished := by
  rintro ⟨world'', hthrown, -⟩
  cases h.symm.trans hthrown

section Objects

variable {policy : SentinelPolicy params} {world : World Key policy.Store}
  {shapes : ObjectName → Tree Key} {name source : ObjectName} {object : TreeObject} {count : ℕ}

/-- The copy constructor, when one of its operations throws. -/
theorem copyConstruct_crashes (h : world.core.Invariant params shapes)
    (hname : world.core.objects name = none) (hsource : world.core.objects source = some object)
    (hcount : count < 2 * object.size) :
    ∃ world', copyConstruct policy name source (world.failAfter count) =
      .error (.fault .badAccess) world' := by
  have hne : source ≠ name := by
    rintro rfl
    rw [hname] at hsource
    cases hsource
  obtain rfl := h.object source object hsource
  set world₁ : World Key policy.Store :=
    { core := { world.core with
        fuse := some count
        objects := Function.update world.core.objects name (some ⟨.nil, 0⟩) }
      sentinels := policy.renew world.sentinels name } with hworld₁
  have hconstruct : construct policy name (world.failAfter count) = .ok () world₁ := rfl
  have hobject : world₁.core.objects name = some ⟨.nil, 0⟩ := Function.update_self ..
  have hsource₁ : world₁.core.objects source =
      some ⟨(shapes source).ptr, (shapes source).size⟩ :=
    (Function.update_of_ne hne ..).trans hsource
  have hlookup : lookup policy source world₁ =
      .ok ⟨(shapes source).ptr, (shapes source).size⟩ world₁ := by
    simp only [lookup, hsource₁]
  have hlive := (h.present source).size_le (h.nodup source)
  obtain ⟨s', hcrash⟩ := copyRecursive_crashes params .nil
    (show Present (world₁.enter policy name ⟨.nil, 0⟩).heap .nil (shapes source) from
      h.present source) (h.nodup source) rfl hcount
    (show (shapes source).size < world.core.heap.live.card + 2 by omega)
  have hprogram : (do
      setRoot (← copyRecursive params (← fuel) (shapes source).ptr .nil)
      setSize (shapes source).size : TreeM Key Unit) (world₁.enter policy name ⟨.nil, 0⟩) =
        .error (.fault .badAccess) s' :=
    (bind_ok (fuel_apply _)).trans (bind_error hcrash)
  refine ⟨world₁.leave policy name s', ?_⟩
  refine (bind_ok hconstruct).trans ((bind_ok hlookup).trans ?_)
  simp only [member, hobject, hprogram]

/-- The copy assignment operator, when one of the operations of its copy throws. -/
theorem copyAssign_crashes (h : world.core.Invariant params shapes)
    (htemporary : world.core.objects .temporary = none)
    (hsource : world.core.objects source = some object) (hcount : count < 2 * object.size)
    (name : ObjectName) :
    ∃ world', copyAssign policy name source (world.failAfter count) =
      .error (.fault .badAccess) world' := by
  obtain ⟨world', hcrash⟩ := copyConstruct_crashes h htemporary hsource hcount
  exact ⟨world', bind_error hcrash⟩

end Objects

/-- Whenever a copy fails, whichever of its operations throws, neither the copy constructor nor the
copy assignment cleans up: each ends with an access through a null pointer. -/
theorem copy_never_fails_cleanly
    [IsStrictWeakOrder Key fun first second ↦ params.comp first second = true]
    {world : World Key (SentinelPolicy.shared params).Store} (hreach : Reachable params world)
    {source : ℕ} {object : TreeObject} (hsource : world.core.objects (.named source) = some object)
    {count : ℕ} (hcount : count < 2 * object.size) (name : ℕ) :
    (¬world.core.Exists name →
      ¬FailsCleanly (copyConstruct (.shared params) (.named name) (.named source))
        (world.failAfter count) (.named name)) ∧
    (world.core.Exists name →
      ¬FailsCleanly (copyAssign (.shared params) (.named name) (.named source))
        (world.failAfter count) .temporary) := by
  obtain ⟨trace, hrun⟩ := hreach
  obtain ⟨⟨shapes, hinv⟩, htemporary, -⟩ := hrun.invariant fun _ ↦ isSentinel_sentinel params
  constructor
  · intro hname
    obtain ⟨world', hcrash⟩ :=
      copyConstruct_crashes hinv (world.core.objects_of_not_exists hname) hsource hcount
    exact not_failsCleanly hcrash _
  · intro _
    obtain ⟨world', hcrash⟩ := copyAssign_crashes hinv htemporary hsource hcount (.named name)
    exact not_failsCleanly hcrash _

/-- A tree of six keys, whose copy fails two levels below the root, where nodes were made. -/
theorem copy_never_fails_cleanly_several :
    ∃ world : World ℕ (SentinelPolicy.shared Params.naturals).Store,
      Reachable Params.naturals world ∧ world.core.objects (.named 0) = some ⟨.node 5, 6⟩ ∧
      Represents world.core.heap .nil (.node 5) severalTree ∧
      (¬world.core.Exists 3 →
        ¬FailsCleanly (copyConstruct (.shared Params.naturals) (.named 3) (.named 0))
          (world.failAfter 4) (.named 3)) ∧
      (world.core.Exists 3 →
        ¬FailsCleanly (copyAssign (.shared Params.naturals) (.named 3) (.named 0))
          (world.failAfter 4) .temporary) := by
  obtain ⟨trace, world, hrun, -, hobject, htree, -, -⟩ := exists_severalOps
  exact ⟨world, ⟨trace, hrun⟩, hobject, htree,
    copy_never_fails_cleanly ⟨trace, hrun⟩ hobject (by decide) 3⟩

/-- Copying the same tree, when the allocation of its third node throws. -/
theorem copyConstruct_breaks_cleanup :
    ∃ world : World ℕ (SentinelPolicy.shared Params.naturals).Store,
      Reachable Params.naturals world ∧ world.core.objects (.named 0) = some ⟨.node 5, 6⟩ ∧
      Represents world.core.heap .nil (.node 5) severalTree ∧
      world.core.objects (.named 3) = none ∧
        ¬FailsCleanly (copyConstruct (.shared Params.naturals) (.named 3) (.named 0))
          (world.failAfter 4) (.named 3) := by
  obtain ⟨trace, world, hrun, -, hobject, htree, hname, -⟩ := exists_severalOps
  obtain ⟨⟨shapes, hinv⟩, -, -⟩ := hrun.invariant fun _ ↦ isSentinel_sentinel Params.naturals
  obtain ⟨world', hcrash⟩ :=
    copyConstruct_crashes hinv hname hobject (show 4 < 2 * 6 by decide)
  exact ⟨world, ⟨trace, hrun⟩, hobject, htree, hname, not_failsCleanly hcrash _⟩

end StudStuff.RedBlackTree
