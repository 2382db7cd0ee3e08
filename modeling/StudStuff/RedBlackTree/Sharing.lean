import StudStuff.RedBlackTree.Runs

/-!
# Trees that share the sentinel do not interfere

`Run.transfer` moves a run from one policy of keeping sentinels to another: the same operations
return the same results and leave the same heap and the same objects. `sharing_isolated` compares
the source, where all objects share one sentinel, with the policy that gives every object its own,
and says what the shared sentinel and the heap look like between the operations of a run.
-/

set_option autoImplicit false
set_option relaxedAutoImplicit false

namespace StudStuff.RedBlackTree

open Lib

variable {Key : Type} {params : Params Key}

/-! ### From one policy to another -/

section Transfer

variable {policy policy' : SentinelPolicy params} {store : policy.Store} {store' : policy'.Store}

/-- A run under one policy is a run under any other, with the same results, the same heap and the
same objects. -/
theorem Run.transfer [params.Lawful]
    (hstore : ∀ name, (policy.load store name).IsSentinel params)
    (hstore' : ∀ name, (policy'.load store' name).IsSentinel params)
    {trace : List (Op Key × Output Key)} {world : World Key policy.Store}
    (h : Run policy store trace world) :
    ∃ sentinels, Run policy' store' trace ⟨world.core, sentinels⟩ := by
  induction h with
  | start => exact ⟨store', .start⟩
  | @step trace world world' op output hrun hvalid hexec ih =>
    obtain ⟨sentinels, hrun'⟩ := ih
    obtain ⟨⟨shapes, hinv⟩, htemporary, hsentinels⟩ := hrun.invariant hstore
    obtain ⟨-, -, hsentinels'⟩ := hrun'.invariant hstore'
    obtain ⟨output', core', shapes', -, -, hcomputes⟩ := exec_computes hinv htemporary hvalid
    obtain ⟨after, -, hafter⟩ := hcomputes policy world.sentinels hsentinels
    obtain ⟨after', -, hafter'⟩ := hcomputes policy' sentinels hsentinels'
    cases hexec.symm.trans hafter
    exact ⟨after', hrun'.step _ hvalid hafter'⟩

end Transfer

/-! ### Copies and owners -/

section Copies

variable {core : Core Key} {shapes : ObjectName → Tree Key}

/-- An operation that makes one object a deep copy of another. -/
inductive Op.Copies : Op Key → ℕ → ℕ → Prop
  | construct (name source : ℕ) : Copies (.copyConstruct name source) name source
  | assign (name source : ℕ) : Copies (.copyAssign name source) name source

/-- A deep copy has the shape, the colours and the keys that its source had. -/
theorem exec_copies [params.Lawful] (h : core.Invariant params shapes)
    (htemporary : core.objects .temporary = none) {op : Op Key} {name source : ℕ}
    (hcopies : op.Copies name source) (hvalid : op.Valid core) :
    ∃ output core' shapes' object, core'.Invariant params shapes' ∧
      core'.objects (.named name) = some object ∧
      (shapes (.named source)).SameShape (shapes' (.named name)) ∧
      Computes params (fun policy ↦ exec policy op) core output core' := by
  cases hcopies with
  | construct =>
    obtain ⟨hname, object, hsource⟩ := hvalid
    have habsent : core.objects (.named name) = none := by
      by_contra hobject
      exact hname (Option.ne_none_iff_exists'.mp hobject)
    obtain ⟨core', copy, hsame, -, hinv, hobjects, hcomputes⟩ := h.copyConstruct habsent hsource
    refine ⟨.unit, core', _, ⟨copy.ptr, copy.size⟩, hinv, ?_, ?_,
      hcomputes.bind (Computes.pure core' Output.unit)⟩
    · rw [hobjects, Function.update_self]
    · rw [Function.update_self]
      exact hsame
  | assign =>
    obtain ⟨⟨object, hname⟩, object', hsource⟩ := hvalid
    obtain ⟨core', copy, hsame, -, hinv, hobjects, hcomputes⟩ :=
      h.copyAssign htemporary hname hsource
    refine ⟨.unit, core', _, ⟨copy.ptr, copy.size⟩, hinv, ?_, ?_,
      hcomputes.bind (Computes.pure core' Output.unit)⟩
    · rw [hobjects, Function.update_self]
    · rw [Function.update_self]
      exact hsame

/-- A node is reached from the root of an object. -/
def Core.Owns (core : Core Key) (name address : ℕ) : Prop :=
  ∃ object, core.objects (.named name) = some object ∧ Reaches core.heap object.root address

/-- An object owns the nodes of its tree. -/
theorem Core.Invariant.owns_iff (h : core.Invariant params shapes) (name address : ℕ) :
    core.Owns name address ↔ address ∈ (shapes (.named name)).addresses := by
  constructor
  · rintro ⟨object, hobject, hreach⟩
    exact ((h.represents hobject).reaches_iff address).mp hreach
  · intro hmem
    obtain ⟨object, hobject⟩ := h.exists_object hmem
    exact ⟨object, hobject, ((h.represents hobject).reaches_iff address).mpr hmem⟩

/-- Every live node has exactly one owner. -/
theorem Core.Invariant.exists_unique_owner (h : core.Invariant params shapes)
    (htemporary : core.objects .temporary = none) {address : ℕ} (hlive : address ∈ core.heap.live) :
    ∃! name, core.Owns name address := by
  simp only [h.owns_iff]
  obtain ⟨name, hmem⟩ := h.covered address hlive
  cases name with
  | temporary =>
    obtain ⟨object, hobject⟩ := h.exists_object hmem
    cases htemporary.symm.trans hobject
  | named name =>
    refine ⟨name, hmem, fun other hother ↦ ?_⟩
    by_contra hne
    exact h.disjoint (.named other) (.named name) (by simpa using hne) address hother hmem

/-- Without objects there is no node left. -/
theorem Core.Invariant.live_eq_empty (h : core.Invariant params shapes)
    (hnone : ∀ name, core.objects name = none) : core.heap.live = ∅ := by
  rw [Finset.eq_empty_iff_forall_notMem]
  intro address hlive
  obtain ⟨name, hmem⟩ := h.covered address hlive
  obtain ⟨object, hobject⟩ := h.exists_object hmem
  cases (hnone name).symm.trans hobject

end Copies

/-! ### The shared sentinel -/

/-- The static sentinel with a given parent field. -/
def RBNode.sentinelUnder (params : Params Key) (parent : Ptr) : RBNode Key :=
  { RBNode.sentinel params with parent := parent }

/-- Trees that share the static sentinel do not interfere. The runs of the source are the runs in
which every object has a sentinel of its own, with the same results, nodes and objects. In every
world that a program reaches the sentinel is black and has nil children, every live node is owned
by exactly one object, and the nodes freed so far are those allocated that are not live, which are
all of them once no object is left. The result of an operation and the nodes and objects it leaves
do not depend on the parent field of the sentinel. A deep copy has the shape, colours and keys
that its source had. -/
theorem sharing_isolated (params : Params Key) [params.Lawful] :
    (∀ (trace : List (Op Key × Output Key)) (core : Core Key),
      (∃ sentinel, Run (.shared params) (.sentinel params) trace ⟨core, sentinel⟩) ↔
        ∃ sentinels, Run (.separate params) (fun _ ↦ .sentinel params) trace ⟨core, sentinels⟩) ∧
    ∀ world, Reachable params world →
      (∃ parent, world.sentinels = RBNode.sentinelUnder params parent) ∧
      (∀ address ∈ world.core.heap.live, ∃! name, world.core.Owns name address) ∧
      world.core.allocated = world.core.freed + world.core.heap.live.card ∧
      ((∀ name, world.core.objects name = none) → world.core.freed = world.core.allocated) ∧
      (∀ op : Op Key, op.Valid world.core → ∃ output core', ∀ parent, ∃ parent',
        exec (.shared params) op ⟨world.core, RBNode.sentinelUnder params parent⟩ =
          .ok output ⟨core', RBNode.sentinelUnder params parent'⟩) ∧
      ∀ (op : Op Key) (name source : ℕ), op.Copies name source → op.Valid world.core →
        ∃ output world' object object' tree tree',
          exec (.shared params) op world = .ok output world' ∧
          world.core.objects (.named source) = some object ∧
          world'.core.objects (.named name) = some object' ∧
          Represents world.core.heap .nil object.root tree ∧
          Represents world'.core.heap .nil object'.root tree' ∧ tree.SameShape tree' := by
  have hshared : ∀ name, ((SentinelPolicy.shared params).load (.sentinel params)
      name).IsSentinel params := fun _ ↦ isSentinel_sentinel params
  have hseparate : ∀ name, ((SentinelPolicy.separate params).load (fun _ ↦ .sentinel params)
      name).IsSentinel params := fun _ ↦ isSentinel_sentinel params
  refine ⟨fun trace core ↦ ⟨?_, ?_⟩, fun world ⟨trace, hrun⟩ ↦ ?_⟩
  · rintro ⟨sentinel, hrun⟩
    exact hrun.transfer hshared hseparate
  · rintro ⟨sentinels, hrun⟩
    exact hrun.transfer hseparate hshared
  · obtain ⟨⟨shapes, hinv⟩, htemporary, hsentinels⟩ := hrun.invariant hshared
    refine ⟨⟨world.sentinels.parent, hsentinels .temporary⟩, fun address hlive ↦
      hinv.exists_unique_owner htemporary hlive, hinv.counters, fun hnone ↦ ?_, fun op hvalid ↦ ?_,
      fun op name source hcopies hvalid ↦ ?_⟩
    · rw [hinv.counters, hinv.live_eq_empty hnone, Finset.card_empty, Nat.add_zero]
    · obtain ⟨output, core', shapes', -, -, hcomputes⟩ := exec_computes hinv htemporary hvalid
      refine ⟨output, core', fun parent ↦ ?_⟩
      obtain ⟨sentinel, hsentinel, hexec⟩ := hcomputes (.shared params)
        (RBNode.sentinelUnder params parent) fun _ ↦ rfl
      refine ⟨sentinel.parent, hexec.trans ?_⟩
      exact congrArg (EStateM.Result.ok output <| World.mk core' ·) (hsentinel .temporary)
    · obtain ⟨output, core', shapes', object', hinv', hobject', hsame, hcomputes⟩ :=
        exec_copies hinv htemporary hcopies hvalid
      obtain ⟨sentinel, -, hexec⟩ := hcomputes (.shared params) world.sentinels hsentinels
      obtain ⟨object, hobject⟩ : world.core.Exists source := by
        cases hcopies with
        | construct => exact hvalid.2
        | assign => exact hvalid.2
      exact ⟨output, ⟨core', sentinel⟩, object, object', _, _, hexec, hobject, hobject',
        hinv.represents hobject, hinv'.represents hobject', hsame⟩

/-- Three trees, of which two were copied and two had keys removed, and a further copy. -/
theorem sharing_isolated_several :
    ∃ trace world, Run (.shared Params.naturals) (.sentinel Params.naturals) trace world ∧
      trace.map Prod.fst = severalOps ∧ world.core.heap.live.card = 19 ∧
      (∃ sentinels, Run (.separate Params.naturals) (fun _ ↦ .sentinel Params.naturals) trace
        ⟨world.core, sentinels⟩) ∧
      (∀ address ∈ world.core.heap.live, ∃! name, world.core.Owns name address) ∧
      ∃ output world' object tree,
        exec (.shared Params.naturals) (.copyConstruct 3 0) world = .ok output world' ∧
        world'.core.objects (.named 3) = some object ∧
        Represents world'.core.heap .nil object.root tree ∧ severalTree.SameShape tree := by
  obtain ⟨trace, world, hrun, htrace, hobject, htree, hfree, hlive⟩ := exists_severalOps
  obtain ⟨htransfer, hisolated⟩ := sharing_isolated Params.naturals
  obtain ⟨-, howners, -, -, -, hcopies⟩ := hisolated world ⟨trace, hrun⟩
  have hvalid : (Op.copyConstruct 3 0 : Op ℕ).Valid world.core :=
    ⟨fun hexists ↦ Option.some_ne_none _ (hexists.choose_spec.symm.trans hfree), _, hobject⟩
  obtain ⟨output, world', object, object', tree, tree', hexec, hsource, hcopy, hrepresents,
    hrepresents', hsame⟩ := hcopies _ 3 0 (.construct 3 0) hvalid
  obtain rfl : object = ⟨.node 5, 6⟩ := Option.some.inj (hsource.symm.trans hobject)
  obtain rfl := hrepresents.unique htree
  exact ⟨trace, world, hrun, htrace, hlive, (htransfer trace world.core).mp ⟨_, hrun⟩, howners,
    output, world', object', tree', hexec, hcopy, hrepresents', hsame⟩

end StudStuff.RedBlackTree
