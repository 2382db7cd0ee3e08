import Mathlib.Order.Defs.Unbundled
import StudStuff.Lib.Heap

/-!
# Nodes, memory and the primitive steps of the red-black tree

The data of `red_black_tree.h`. A pointer is null, the address of the one static sentinel that
every tree of a type shares, or the address of a node obtained with `new`. The memory holds the
sentinel, which is a node like any other, and the heap of live nodes. A `State` is the memory
together with the fields `root_` and `size_` of the tree object a member function runs on.

A member function is a `TreeM` program. It can stop in two ways. `Stop.thrown` is a C++
exception, raised by an allocation, a key copy or a comparison when the `fuse` of the memory
runs out (`mayThrow`); a memory whose fuse is `none` never throws. `Stop.fault` is what the
source never checks and must never do: `badAccess` is an access through a null pointer or to a
node that is not live, `nilPivot`, `nilGrandparent` and `nilSibling` are a rotation or a fixup
step that takes the sentinel for a node, and `outOfFuel` is a loop that runs longer than the
number of nodes allows. A program that returns has met none of them.

`Params` holds what the class template is instantiated with: the comparison, the `==` of the
key type, the value `Key{}` in the sentinel, and the allocator.
-/

set_option autoImplicit false
set_option relaxedAutoImplicit false

namespace StudStuff.RedBlackTree

open Lib

/-! ### Data -/

/-- `enum class Color`. -/
inductive Color
  | red
  | black
  deriving DecidableEq, Repr

/-- The two children of a node. The source writes each mirrored case twice; here a side is a
parameter. -/
inductive Side
  | left
  | right
  deriving DecidableEq, Repr

/-- The other side. -/
def Side.flip : Side → Side
  | left => right
  | right => left

@[simp] theorem Side.flip_flip (side : Side) : side.flip.flip = side := by
  cases side <;> rfl

@[simp] theorem Side.flip_ne (side : Side) : side.flip ≠ side := by
  cases side <;> decide

/-- A `NodeType *`: null, the static sentinel, or a node on the free store. -/
inductive Ptr
  | null
  | nil
  | node (address : ℕ)
  deriving DecidableEq, Repr

/-- `struct RBNode`. -/
structure RBNode (Key : Type) where
  data : Key
  color : Color
  parent : Ptr
  left : Ptr
  right : Ptr
  deriving DecidableEq

variable {Key : Type}

namespace RBNode

/-- The constructor `RBNode(const T &value)`. -/
def new (value : Key) : RBNode Key where
  data := value
  color := .red
  parent := .null
  left := .null
  right := .null

/-- `GetChild`: the child on a side. -/
def child (node : RBNode Key) : Side → Ptr
  | .left => node.left
  | .right => node.right

/-- Assigning the child on a side. -/
def setChild (node : RBNode Key) : Side → Ptr → RBNode Key
  | .left, ptr => { node with left := ptr }
  | .right, ptr => { node with right := ptr }

end RBNode

/-- What a program must never do. -/
inductive Fault
  | badAccess
  | outOfFuel
  | nilPivot
  | nilGrandparent
  | nilSibling
  deriving DecidableEq, Repr

/-- Why a program stopped before returning. -/
inductive Stop
  | thrown
  | fault (reason : Fault)
  deriving DecidableEq, Repr

/-- What all trees of one type share: the live nodes, the static sentinel, the numbers of
allocations and deallocations made so far, and the number of throwing operations that will
still succeed (`none`: all of them). -/
@[ext]
structure Memory (Key : Type) where
  heap : Heap ℕ (RBNode Key)
  nilNode : RBNode Key
  allocated : ℕ
  freed : ℕ
  fuse : Option ℕ

/-- The memory and the fields `root_` and `size_` of the object a member function runs on. -/
@[ext]
structure State (Key : Type) extends Memory Key where
  root : Ptr
  size : ℕ

/-- The parameters of the class template, and the allocator. -/
structure Params (Key : Type) where
  /-- `comp_`. -/
  comp : Key → Key → Bool
  /-- `operator==` of the key type. -/
  eq : Key → Key → Bool
  /-- `Key{}`. -/
  default : Key
  /-- The addresses that `new` returns. -/
  allocator : Allocator

/-- What the concept `RedBlackTreeKey` and the callers promise: the comparison is a strict weak
order, and `==` holds only between keys that the comparison does not separate. -/
class Params.Lawful (params : Params Key) : Prop where
  weakOrder : IsStrictWeakOrder Key fun first second ↦ params.comp first second = true
  eq_equivalent : ∀ first second, params.eq first second = true →
    params.comp first second = false ∧ params.comp second first = false

instance (params : Params Key) [h : params.Lawful] :
    IsStrictWeakOrder Key fun first second ↦ params.comp first second = true :=
  h.weakOrder

/-- `RedBlackTree<std::size_t>` with the default comparison. -/
def Params.naturals : Params ℕ where
  comp first second := decide (first < second)
  eq first second := first == second
  default := 0
  allocator := .bump

instance : Params.naturals.Lawful where
  weakOrder :=
    { irrefl := by simp [Params.naturals]
      trans := by simp only [Params.naturals, decide_eq_true_eq]; omega
      incomp_trans := by simp only [Params.naturals, decide_eq_true_eq]; omega }
  eq_equivalent := by simp only [Params.naturals, beq_iff_eq, decide_eq_false_iff_not]; omega

/-- `BasicIterator`: the node it points to and the sentinel it was given. -/
structure Iterator where
  node : Ptr
  nil : Ptr
  deriving DecidableEq, Repr

/-! ### Programs -/

/-- A member function of the tree. -/
abbrev TreeM (Key : Type) := EStateM Stop (State Key)

/-- Stop with a fault. -/
def fault {α : Type} (reason : Fault) : TreeM Key α := throw (.fault reason)

/-- Go on only if a condition holds that the source relies on without checking it. -/
def require (condition : Bool) (reason : Fault) : TreeM Key Unit :=
  if condition then pure () else fault reason

/-- One operation that may throw. -/
def mayThrow : TreeM Key Unit := fun s ↦
  match s.fuse with
  | none => .ok () s
  | some 0 => .error .thrown s
  | some (count + 1) => .ok () { s with fuse := some count }

/-- Dereference a pointer. -/
def read : Ptr → TreeM Key (RBNode Key)
  | .null, s => .error (.fault .badAccess) s
  | .nil, s => .ok s.nilNode s
  | .node address, s =>
    match s.heap.cell address with
    | some node => .ok node s
    | none => .error (.fault .badAccess) s

/-- Assign through a pointer. -/
def write : Ptr → (RBNode Key → RBNode Key) → TreeM Key Unit
  | .null, _, s => .error (.fault .badAccess) s
  | .nil, change, s => .ok () { s with nilNode := change s.nilNode }
  | .node address, change, s =>
    match s.heap.cell address with
    | some _ => .ok () { s with heap := s.heap.modify address change }
    | none => .error (.fault .badAccess) s

/-- `ptr->color = color`. -/
def setColor (ptr : Ptr) (color : Color) : TreeM Key Unit :=
  write ptr fun node ↦ { node with color := color }

/-- `ptr->parent = parent`. -/
def setParent (ptr parent : Ptr) : TreeM Key Unit :=
  write ptr fun node ↦ { node with parent := parent }

/-- `ptr->left = child` or `ptr->right = child`. -/
def setChild (ptr : Ptr) (side : Side) (child : Ptr) : TreeM Key Unit :=
  write ptr fun node ↦ node.setChild side child

/-- `root_ = ptr`. -/
def setRoot (ptr : Ptr) : TreeM Key Unit := modify fun s ↦ { s with root := ptr }

/-- `size_ = count`. -/
def setSize (count : ℕ) : TreeM Key Unit := modify fun s ↦ { s with size := count }

/-- `new NodeType(value)`: the allocation and the copy of the key may throw. -/
def newNode (params : Params Key) (value : Key) : TreeM Key Ptr := do
  mayThrow
  mayThrow
  let s ← get
  let address := params.allocator.pick s.allocated s.heap.live
  set { s with heap := s.heap.store address (RBNode.new value), allocated := s.allocated + 1 }
  return .node address

/-- `delete ptr`. Deleting a null pointer does nothing. -/
def deleteNode : Ptr → TreeM Key Unit
  | .null, s => .ok () s
  | .nil, s => .error (.fault .badAccess) s
  | .node address, s =>
    match s.heap.cell address with
    | some _ => .ok () { s with heap := s.heap.release address, freed := s.freed + 1 }
    | none => .error (.fault .badAccess) s

/-- A bound on the iterations of every loop: no loop visits a node twice. -/
def fuel : TreeM Key ℕ := do return (← get).heap.live.card + 2

end StudStuff.RedBlackTree
