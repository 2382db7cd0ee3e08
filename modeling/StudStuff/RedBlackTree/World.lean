import Mathlib.Logic.Function.Basic
import StudStuff.RedBlackTree.Reachability

/-!
# Programs over many tree objects

A `World` holds every tree object of one type: the heap with its counters and the fields `root_`
and `size_` of each object (`Core`), and the sentinel. In the source the sentinel is one static
node that all objects share. Where the sentinel of an object is kept is a `SentinelPolicy`:
`shared` is the source, and `separate` gives every object a sentinel of its own, which is what the
shared one is compared with.

A member function runs on the fields of one object (`member`). Construction, assignment and
destruction are the special members of the class. The assignments build a temporary object, swap
with it and destroy it, as in the source. `Op` is the interface, `exec` runs one operation and
`Run` is a run of operations whose preconditions hold (`Op.Valid`).
-/

set_option autoImplicit false
set_option relaxedAutoImplicit false

namespace StudStuff.RedBlackTree

open Lib

variable {Key : Type}

/-! ### Objects and memory -/

/-- A tree object of the program, or the local `tmp` of an assignment operator. -/
inductive ObjectName
  | named (index : ℕ)
  | temporary
  deriving DecidableEq, Repr

/-- The fields of a tree object that change. -/
structure TreeObject where
  root : Ptr
  size : ℕ
  deriving DecidableEq, Repr

/-- The static sentinel as `GetNil` makes it. -/
def RBNode.sentinel (params : Params Key) : RBNode Key where
  data := params.default
  color := .black
  parent := .nil
  left := .nil
  right := .nil

/-- A sentinel with any parent field. -/
def RBNode.IsSentinel (params : Params Key) (node : RBNode Key) : Prop :=
  node = { RBNode.sentinel params with parent := node.parent }

/-- Where the sentinel of each object is kept. -/
structure SentinelPolicy (params : Params Key) where
  /-- All sentinels. -/
  Store : Type
  /-- The sentinel that a member function of an object sees. -/
  load : Store → ObjectName → RBNode Key
  /-- The sentinels after a member function of an object has left its own in a given state. -/
  save : Store → ObjectName → RBNode Key → Store
  /-- The sentinels after an object was constructed. -/
  renew : Store → ObjectName → Store
  /-- A sentinel holds what was written to it last. -/
  load_save : ∀ store name node other, load (save store name node) other = node ∨
    load (save store name node) other = load store other
  /-- Construction makes a new sentinel or none. -/
  load_renew : ∀ store name other, load (renew store name) other = RBNode.sentinel params ∨
    load (renew store name) other = load store other

/-- The source: one static sentinel. -/
def SentinelPolicy.shared (params : Params Key) : SentinelPolicy params where
  Store := RBNode Key
  load store _ := store
  save _ _ node := node
  renew store _ := store
  load_save _ _ _ _ := Or.inl rfl
  load_renew _ _ _ := Or.inr rfl

/-- Every object has a sentinel of its own. -/
def SentinelPolicy.separate (params : Params Key) : SentinelPolicy params where
  Store := ObjectName → RBNode Key
  load store name := store name
  save store name node := Function.update store name node
  renew store name := Function.update store name (RBNode.sentinel params)
  load_save store name node other := by
    by_cases h : other = name
    · exact Or.inl (h ▸ Function.update_self ..)
    · exact Or.inr (Function.update_of_ne h ..)
  load_renew store name other := by
    by_cases h : other = name
    · exact Or.inl (h ▸ Function.update_self ..)
    · exact Or.inr (Function.update_of_ne h ..)

/-- The memory without the sentinel, and the objects that exist. -/
structure Core (Key : Type) where
  heap : Heap ℕ (RBNode Key)
  allocated : ℕ
  freed : ℕ
  fuse : Option ℕ
  objects : ObjectName → Option TreeObject

/-- The whole memory of a program. -/
structure World (Key Store : Type) where
  core : Core Key
  sentinels : Store

/-- No node is allocated and no object exists. -/
def Core.start (Key : Type) : Core Key where
  heap := .empty
  allocated := 0
  freed := 0
  fuse := none
  objects _ := none

/-- A program over the objects. -/
abbrev WorldM (Key Store : Type) := EStateM Stop (World Key Store)

/-! ### Member functions and special members -/

section Members

variable {params : Params Key} (policy : SentinelPolicy params)

/-- The state a member function of an object starts in. -/
def World.enter (world : World Key policy.Store) (name : ObjectName) (object : TreeObject) :
    State Key where
  heap := world.core.heap
  nilNode := policy.load world.sentinels name
  allocated := world.core.allocated
  freed := world.core.freed
  fuse := world.core.fuse
  root := object.root
  size := object.size

/-- The world after a member function of an object has ended in a given state. -/
def World.leave (world : World Key policy.Store) (name : ObjectName) (s : State Key) :
    World Key policy.Store where
  core :=
    { heap := s.heap
      allocated := s.allocated
      freed := s.freed
      fuse := s.fuse
      objects := Function.update world.core.objects name (some ⟨s.root, s.size⟩) }
  sentinels := policy.save world.sentinels name s.nilNode

/-- Call a member function of an object. -/
def member {α : Type} (name : ObjectName) (program : TreeM Key α) : WorldM Key policy.Store α :=
  fun world ↦
    match world.core.objects name with
    | none => .error (.fault .badAccess) world
    | some object =>
      match program (world.enter policy name object) with
      | .ok value s => .ok value (world.leave policy name s)
      | .error stop s => .error stop (world.leave policy name s)

/-- Read the fields of an object. -/
def lookup (name : ObjectName) : WorldM Key policy.Store TreeObject := fun world ↦
  match world.core.objects name with
  | none => .error (.fault .badAccess) world
  | some object => .ok object world

/-- Write the fields of an object, or end its lifetime. -/
def assignObject (name : ObjectName) (object : Option TreeObject) :
    WorldM Key policy.Store Unit := fun world ↦
  .ok () { world with
    core := { world.core with objects := Function.update world.core.objects name object } }

/-- Begin the lifetime of an object. -/
def create (name : ObjectName) (object : TreeObject) : WorldM Key policy.Store Unit := do
  assignObject policy name (some object)
  modify fun world ↦ { world with sentinels := policy.renew world.sentinels name }

/-- The default constructor. -/
def construct (name : ObjectName) : WorldM Key policy.Store Unit := create policy name ⟨.nil, 0⟩

/-- The copy constructor. -/
def copyConstruct (name source : ObjectName) : WorldM Key policy.Store Unit := do
  construct policy name
  let other ← lookup policy source
  member policy name do
    setRoot (← copyRecursive params (← fuel) other.root .nil)
    setSize other.size

/-- The move constructor. -/
def moveConstruct (name source : ObjectName) : WorldM Key policy.Store Unit := do
  let other ← lookup policy source
  assignObject policy source (some ⟨.nil, 0⟩)
  create policy name other

/-- The destructor. -/
def destroy (name : ObjectName) : WorldM Key policy.Store Unit := do
  member policy name clear
  assignObject policy name none

/-- `Swap`. -/
def swap (first second : ObjectName) : WorldM Key policy.Store Unit := do
  let object ← lookup policy first
  let object' ← lookup policy second
  assignObject policy first (some object')
  assignObject policy second (some object)

/-- The copy assignment operator. -/
def copyAssign (name source : ObjectName) : WorldM Key policy.Store Unit := do
  copyConstruct policy .temporary source
  swap policy name .temporary
  destroy policy .temporary

/-- The move assignment operator. -/
def moveAssign (name source : ObjectName) : WorldM Key policy.Store Unit := do
  moveConstruct policy .temporary source
  swap policy name .temporary
  destroy policy .temporary

end Members

/-! ### The interface -/

/-- An operation on the objects of a program. -/
inductive Op (Key : Type)
  | construct (name : ℕ)
  | copyConstruct (name source : ℕ)
  | moveConstruct (name source : ℕ)
  | destroy (name : ℕ)
  | copyAssign (name source : ℕ)
  | moveAssign (name source : ℕ)
  | swap (first second : ℕ)
  | insert (name : ℕ) (key : Key)
  | remove (name : ℕ) (key : Key)
  | erase (name : ℕ) (pos : Iterator)
  | clear (name : ℕ)
  | find (name : ℕ) (key : Key)
  | lowerBound (name : ℕ) (key : Key)
  | upperBound (name : ℕ) (key : Key)
  | begin (name : ℕ)
  | next (name : ℕ) (pos : Iterator)
  | deref (name : ℕ) (pos : Iterator)
  | empty (name : ℕ)
  | size (name : ℕ)

/-- What an operation returns. -/
inductive Output (Key : Type)
  | unit
  | position (pos : Iterator)
  | count (number : ℕ)
  | flag (value : Bool)
  | key (value : Key)

/-- Run one operation. -/
def exec {params : Params Key} (policy : SentinelPolicy params) :
    Op Key → WorldM Key policy.Store (Output Key)
  | .construct name => do construct policy (.named name); return .unit
  | .copyConstruct name source => do
    copyConstruct policy (.named name) (.named source)
    return .unit
  | .moveConstruct name source => do
    moveConstruct policy (.named name) (.named source)
    return .unit
  | .destroy name => do destroy policy (.named name); return .unit
  | .copyAssign name source => do
    copyAssign policy (.named name) (.named source)
    return .unit
  | .moveAssign name source => do
    moveAssign policy (.named name) (.named source)
    return .unit
  | .swap first second => do swap policy (.named first) (.named second); return .unit
  | .insert name key => do
    return .position (← member policy (.named name) (RedBlackTree.insert params key))
  | .remove name key => do
    return .count (← member policy (.named name) (RedBlackTree.remove params key))
  | .erase name pos => do
    return .position (← member policy (.named name) (RedBlackTree.erase params pos))
  | .clear name => do member policy (.named name) RedBlackTree.clear; return .unit
  | .find name key => do
    return .position (← member policy (.named name) (RedBlackTree.find params key))
  | .lowerBound name key => do
    return .position (← member policy (.named name) (RedBlackTree.lowerBound params key))
  | .upperBound name key => do
    return .position (← member policy (.named name) (RedBlackTree.upperBound params key))
  | .begin name => do return .position (← member policy (.named name) RedBlackTree.begin)
  | .next name pos => do
    return .position (← member policy (.named name) (pos.increment params))
  | .deref name pos => do return .key (← member policy (.named name) pos.deref)
  | .empty name => do return .flag (← member policy (.named name) RedBlackTree.empty)
  | .size name => do return .count (← member policy (.named name) RedBlackTree.size)

/-- An object exists. -/
def Core.Exists (core : Core Key) (name : ℕ) : Prop :=
  ∃ object, core.objects (.named name) = some object

/-- A pointer is to a node of the tree of an object. -/
def Core.Holds (core : Core Key) (name : ℕ) (ptr : Ptr) : Prop :=
  ∃ object address, core.objects (.named name) = some object ∧ ptr = .node address ∧
    Reaches core.heap object.root address

/-- The precondition of an operation: its objects exist, a new object has a new name, and a
position is one of the tree it is used with. -/
def Op.Valid (core : Core Key) : Op Key → Prop
  | .construct name => ¬core.Exists name
  | .copyConstruct name source | .moveConstruct name source =>
    ¬core.Exists name ∧ core.Exists source
  | .copyAssign name source | .moveAssign name source => core.Exists name ∧ core.Exists source
  | .swap first second => core.Exists first ∧ core.Exists second
  | .erase name pos => core.Exists name ∧ (pos = endIterator ∨ core.Holds name pos.node)
  | .next name pos =>
    core.Exists name ∧ (pos = endIterator ∨ pos.nil = .nil ∧ core.Holds name pos.node)
  | .deref name pos => core.Holds name pos.node
  | .destroy name | .insert name _ | .remove name _ | .clear name | .find name _
  | .lowerBound name _ | .upperBound name _ | .begin name | .empty name | .size name =>
    core.Exists name

/-- A run of operations from a start, with what each of them returned. -/
inductive Run {params : Params Key} (policy : SentinelPolicy params) (store : policy.Store) :
    List (Op Key × Output Key) → World Key policy.Store → Prop
  | start : Run policy store [] ⟨Core.start Key, store⟩
  | step {trace : List (Op Key × Output Key)} {world world' : World Key policy.Store} (op : Op Key)
      {output : Output Key} (hrun : Run policy store trace world) (hvalid : op.Valid world.core)
      (hexec : exec policy op world = .ok output world') :
      Run policy store (trace ++ [(op, output)]) world'

/-- The worlds that a program of the source reaches. -/
def Reachable (params : Params Key) (world : World Key (SentinelPolicy.shared params).Store) :
    Prop :=
  ∃ trace, Run (.shared params) (.sentinel params) trace world

/-! ### Programs that are run -/

section Programs

variable {params : Params Key} {policy : SentinelPolicy params}

/-- Whether the precondition of an operation holds, for operations without a position. -/
def Op.isReady (core : Core Key) : Op Key → Bool
  | .construct name => (core.objects (.named name)).isNone
  | .copyConstruct name source | .moveConstruct name source =>
    (core.objects (.named name)).isNone && (core.objects (.named source)).isSome
  | .copyAssign name source | .moveAssign name source =>
    (core.objects (.named name)).isSome && (core.objects (.named source)).isSome
  | .swap first second =>
    (core.objects (.named first)).isSome && (core.objects (.named second)).isSome
  | .erase _ _ | .next _ _ | .deref _ _ => false
  | .destroy name | .insert name _ | .remove name _ | .clear name | .find name _
  | .lowerBound name _ | .upperBound name _ | .begin name | .empty name | .size name =>
    (core.objects (.named name)).isSome

theorem Core.exists_iff (core : Core Key) (name : ℕ) :
    core.Exists name ↔ (core.objects (.named name)).isSome = true :=
  Option.isSome_iff_exists.symm

theorem Op.valid_of_isReady {core : Core Key} {op : Op Key} (h : op.isReady core = true) :
    op.Valid core := by
  cases op with
  | erase | next | deref => cases h
  | _ => simpa [isReady, Valid, Core.exists_iff] using h

/-- Run operations whose preconditions hold, and test the world they lead to. -/
def testAfter (policy : SentinelPolicy params) (test : World Key policy.Store → Bool) :
    List (Op Key) → World Key policy.Store → Bool
  | [], world => test world
  | op :: rest, world =>
    op.isReady world.core &&
      match exec policy op world with
      | .ok _ world' => testAfter policy test rest world'
      | .error _ _ => false

/-- Operations that can be run from a world that a run has led to lead to a run. -/
theorem Run.exists_of_testAfter {store : policy.Store} {trace : List (Op Key × Output Key)}
    {world : World Key policy.Store} {test : World Key policy.Store → Bool} {ops : List (Op Key)}
    (hrun : Run policy store trace world) (htest : testAfter policy test ops world = true) :
    ∃ trace' world', Run policy store trace' world' ∧
      trace'.map Prod.fst = trace.map Prod.fst ++ ops ∧ test world' = true := by
  induction ops generalizing trace world with
  | nil => exact ⟨trace, world, hrun, (List.append_nil _).symm, htest⟩
  | cons op rest ih =>
    rw [testAfter, Bool.and_eq_true] at htest
    obtain ⟨hready, htest⟩ := htest
    cases hexec : exec policy op world with
    | error stop world' =>
      rw [hexec] at htest
      cases htest
    | ok output world' =>
      rw [hexec] at htest
      obtain ⟨trace', world'', hrun', htrace, hworld⟩ :=
        ih (hrun.step op (Op.valid_of_isReady hready) hexec) htest
      exact ⟨trace', world'', hrun', by simp [htrace], hworld⟩

/-- A run of operations, when the world they lead to passes a test. -/
theorem exists_run (policy : SentinelPolicy params) (store : policy.Store) (ops : List (Op Key))
    (test : World Key policy.Store → Bool)
    (htest : testAfter policy test ops ⟨Core.start Key, store⟩ = true) :
    ∃ trace world, Run policy store trace world ∧ trace.map Prod.fst = ops ∧ test world = true :=
  Run.exists_of_testAfter .start htest

/-- A program with three trees. Insertions rotate and recolour, a removal takes a node with two
children and another a black leaf, and two trees are copied, moved and swapped. -/
def severalOps : List (Op ℕ) :=
  [.construct 0, .insert 0 2, .insert 0 4, .insert 0 6, .insert 0 8, .insert 0 10, .insert 0 12,
    .insert 0 14, .insert 0 16, .copyConstruct 1 0, .remove 0 8, .remove 0 2, .construct 2,
    .insert 2 5, .swap 1 2, .copyAssign 1 0, .moveConstruct 3 2, .remove 3 16, .moveAssign 2 3,
    .destroy 3]

/-- The tree of the first object after that. -/
def severalTree : Tree ℕ :=
  .node 5 .black (.node 2 .black .nil 4 (.node 3 .red .nil 6 .nil)) 10
    (.node 7 .red (.node 6 .black .nil 12 .nil) 14 (.node 8 .black .nil 16 .nil))

theorem exists_severalOps : ∃ trace world,
    Run (.shared Params.naturals) (.sentinel Params.naturals) trace world ∧
      trace.map Prod.fst = severalOps ∧ world.core.objects (.named 0) = some ⟨.node 5, 6⟩ ∧
        Represents world.core.heap .nil (.node 5) severalTree ∧
          world.core.objects (.named 3) = none ∧ world.core.heap.live.card = 19 := by
  obtain ⟨trace, world, hrun, htrace, htest⟩ := exists_run (.shared Params.naturals)
    (.sentinel Params.naturals) severalOps
    (fun world ↦ decide (world.core.objects (.named 0) = some ⟨.node 5, 6⟩ ∧
      (∀ address ∈ severalTree.addresses,
        world.core.heap.cell address = severalTree.cellAt .nil address) ∧
          world.core.objects (.named 3) = none ∧ world.core.heap.live.card = 19))
    (by decide +kernel)
  obtain ⟨hobject, hpresent, hfree, hlive⟩ := of_decide_eq_true htest
  have hrepresents := Present.represents hpresent (by decide)
  exact ⟨trace, world, hrun, htrace, hobject, hrepresents, hfree, hlive⟩

end Programs

end StudStuff.RedBlackTree
