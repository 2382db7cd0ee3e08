import Mathlib.Data.Nat.Notation
import StudStuff.Lib.Heap

/-!
# Control blocks and the release of references

The data of `control_block.h` and `smart_shared_ptr.h`, and the member functions of `CbBase`,
`CbRegular` and of the destructors of the handles. A managed object owns handles, and its
destructor does nothing but destroy them, last declared first. An object and the control block
made for it have the same number.

A program stops with a `Fault` when the source would access a control block that was freed, a
handle that does not exist or whose object has been destroyed, or when it would run a deleter a
second time. The counters are unsigned: decrementing one that is zero wraps around
(`decrement`), and the state records that it happened. Incrementing is exact, as there is no room
for `2 ^ 64` handles in an address space of that size.

`release` is recursive, because the deleter destroys handles, and every nested call that reaches
the deleter destroys an object. The bound counts these nestings.
-/

set_option autoImplicit false
set_option relaxedAutoImplicit false

namespace StudStuff.SharedPtr

open Lib

/-! ### Data -/

/-- Where a handle is stored: a variable of the program, a field of a managed object, or the
by-value parameter of an assignment operator. -/
inductive HandleName
  | root (index : ℕ)
  | field (object index : ℕ)
  | temporary
  deriving DecidableEq, Repr

/-- The class of a handle. -/
inductive HandleKind
  | shared
  | weak
  deriving DecidableEq, Repr

/-- The fields of a `SharedPtr` or of a `WeakPtr`. -/
inductive Handle
  | shared (cb ptr : Option ℕ)
  | weak (cb : Option ℕ)
  deriving DecidableEq, Repr

namespace Handle

/-- The class of a handle. -/
def kind : Handle → HandleKind
  | shared _ _ => .shared
  | weak _ => .weak

/-- The default constructors. -/
def empty : HandleKind → Handle
  | .shared => shared none none
  | .weak => weak none

/-- `cb_ = nullptr`. -/
def clearCb : Handle → Handle
  | shared _ ptr => shared none ptr
  | weak _ => weak none

/-- `ptr_ = nullptr`, for a `SharedPtr`. -/
def clearPtr : Handle → Handle
  | shared cb _ => shared cb none
  | weak cb => weak cb

/-- A `SharedPtr` attached to a control block. -/
def strongTo (block : ℕ) : Handle → Bool
  | shared cb _ => cb = some block
  | weak _ => false

/-- A `WeakPtr` attached to a control block. -/
def weakTo (block : ℕ) : Handle → Bool
  | shared _ _ => false
  | weak cb => cb = some block

end Handle

/-- A managed object: the number of its handles, and how often its deleter has run. -/
structure Object where
  fieldCount : ℕ
  destroyed : ℕ
  deriving DecidableEq, Repr

/-- A `CbRegular`, and how often it was freed. -/
structure Block where
  useCnt : ℕ
  weakCnt : ℕ
  isDestroying : Bool
  ptr : Option ℕ
  freed : ℕ
  deriving DecidableEq, Repr

/-- The memory of a program. Objects and blocks are numbered in the order of their creation. -/
@[ext] structure State where
  handles : Heap HandleName Handle
  created : ℕ
  objects : ℕ → Object
  blocks : ℕ → Block
  /-- A counter was decremented below zero. -/
  underflowed : Bool

/-- What a program must never do. -/
inductive Fault
  | badAccess
  | doubleDelete
  | outOfFuel
  deriving DecidableEq, Repr

/-- A program over handles. -/
abbrev PtrM := EStateM Fault State

/-! ### Accesses -/

/-- The object that contains a handle, if any, has not been destroyed. -/
def State.standing (s : State) : HandleName → Bool
  | .field object _ => (s.objects object).destroyed = 0
  | _ => true

/-- Read the fields of a handle. -/
def readHandle (name : HandleName) : PtrM Handle := fun s ↦
  match s.standing name, s.handles.cell name with
  | true, some handle => .ok handle s
  | _, _ => .error .badAccess s

/-- Change the fields of a handle. -/
def modifyHandle (name : HandleName) (change : Handle → Handle) : PtrM Unit := fun s ↦
  match s.standing name, s.handles.cell name with
  | true, some handle => .ok () { s with handles := s.handles.store name (change handle) }
  | _, _ => .error .badAccess s

/-- Begin the lifetime of a handle. -/
def createHandle (name : HandleName) (handle : Handle) : PtrM Unit :=
  modify fun s ↦ { s with handles := s.handles.store name handle }

/-- End the lifetime of a handle, for its destructor. -/
def takeHandle (name : HandleName) : PtrM Handle := fun s ↦
  match s.handles.cell name with
  | some handle => .ok handle { s with handles := s.handles.release name }
  | none => .error .badAccess s

/-- Read a control block. -/
def readBlock (block : ℕ) : PtrM Block := fun s ↦
  if block < s.created ∧ (s.blocks block).freed = 0 then .ok (s.blocks block) s
  else .error .badAccess s

/-- Change a control block. -/
def modifyBlock (block : ℕ) (change : Block → Block) : PtrM Unit := fun s ↦
  if block < s.created ∧ (s.blocks block).freed = 0 then
    .ok () { s with blocks := Function.update s.blocks block (change (s.blocks block)) }
  else .error .badAccess s

/-- Read the ghost data of an object. -/
def readObject (object : ℕ) : PtrM Object := fun s ↦ .ok (s.objects object) s

/-- A deleter runs on an object, which ends the lifetime of the object. -/
def markDestroyed (object : ℕ) : PtrM Unit :=
  modify fun s ↦ { s with
    objects := Function.update s.objects object
      { s.objects object with destroyed := (s.objects object).destroyed + 1 } }

/-- `--count` on a 64-bit unsigned counter. -/
def decrement (count : ℕ) : ℕ := if count = 0 then 2 ^ 64 - 1 else count - 1

/-- Record the decrement of a counter that is zero. -/
def noteUnderflow (count : ℕ) : PtrM Unit :=
  if count = 0 then modify fun s ↦ { s with underflowed := true } else pure ()

/-! ### `CbBase` and `CbRegular` -/

/-- `AddRef`. -/
def addRef (block : ℕ) : PtrM Unit :=
  modifyBlock block fun cb ↦ { cb with useCnt := cb.useCnt + 1 }

/-- `AddWeak`. -/
def addWeak (block : ℕ) : PtrM Unit :=
  modifyBlock block fun cb ↦ { cb with weakCnt := cb.weakCnt + 1 }

/-- `DestroyBlock`. -/
def destroyBlock (block : ℕ) : PtrM Unit :=
  modifyBlock block fun cb ↦ { cb with freed := cb.freed + 1 }

/-- `ReleaseWeak`. -/
def releaseWeak (block : ℕ) : PtrM Unit := do
  noteUnderflow (← readBlock block).weakCnt
  modifyBlock block fun cb ↦ { cb with weakCnt := decrement cb.weakCnt }
  let cb ← readBlock block
  if cb.weakCnt = 0 ∧ cb.useCnt = 0 ∧ cb.isDestroying = false then
    destroyBlock block

/-- The part of the destructors that both classes share with `Reset`: give up the reference that a
handle holds, if it holds one. -/
def releaseCb (release : ℕ → PtrM Unit) : Handle → PtrM Unit
  | .shared (some block) _ => release block
  | .weak (some block) => releaseWeak block
  | _ => pure ()

/-- The destructor of a handle. -/
def destroyHandle (release : ℕ → PtrM Unit) (name : HandleName) : PtrM Unit := do
  releaseCb release (← takeHandle name)

/-- Destroy the handles of an object, last declared first. -/
def destroyFields (release : ℕ → PtrM Unit) (object : ℕ) : ℕ → PtrM Unit
  | 0 => pure ()
  | count + 1 => do
    destroyHandle release (.field object count)
    destroyFields release object count

/-- The deleter on an object. -/
def deleteObject (release : ℕ → PtrM Unit) (object : ℕ) : PtrM Unit := do
  let target ← readObject object
  if target.destroyed = 0 then
    markDestroyed object
    destroyFields release object target.fieldCount
  else
    throw .doubleDelete

/-- The deleter on a pointer. It does nothing with a null pointer. -/
def deletePtr (release : ℕ → PtrM Unit) : Option ℕ → PtrM Unit
  | some object => deleteObject release object
  | none => pure ()

/-- `DestroyObject`. -/
def destroyObject (release : ℕ → PtrM Unit) (block : ℕ) : PtrM Unit := do
  deletePtr release (← readBlock block).ptr
  modifyBlock block fun cb ↦ { cb with ptr := none }

/-- `Release`. -/
def release : ℕ → ℕ → PtrM Unit
  | 0, _ => throw .outOfFuel
  | bound + 1, block => do
    noteUnderflow (← readBlock block).useCnt
    modifyBlock block fun cb ↦ { cb with useCnt := decrement cb.useCnt }
    if (← readBlock block).useCnt = 0 then
      modifyBlock block fun cb ↦ { cb with isDestroying := true }
      destroyObject (release bound) block
      modifyBlock block fun cb ↦ { cb with isDestroying := false }
      if (← readBlock block).weakCnt = 0 then
        destroyBlock block

/-- A bound on the nesting of deleters. -/
def fuel : PtrM ℕ := do return (← get).created + 1

end StudStuff.SharedPtr
