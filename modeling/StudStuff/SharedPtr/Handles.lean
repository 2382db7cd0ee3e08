import StudStuff.SharedPtr.ControlBlock

/-!
# The operations on handles

Construction, assignment, `Swap`, `Reset`, `Lock` and destruction of `SharedPtr` and `WeakPtr`.
The assignment operators take their argument by value, swap with it and destroy it, as in the
source. Copying, moving, swapping, assigning and destroying are written alike in both classes and
are one program here, which does what the class of the handle says. The converting copy
constructor stores `other.Get()`, which is `ptr_`, and is the copy constructor.

`Op` is the interface, `exec` runs one operation, and `run` and `Reachable` run operations whose
preconditions hold (`Op.Valid`).
-/

set_option autoImplicit false
set_option relaxedAutoImplicit false

namespace StudStuff.SharedPtr

open Lib

/-! ### Constructors -/

/-- `AddRef` or `AddWeak` of a handle. -/
def addCb : Handle → PtrM Unit
  | .shared (some block) _ => addRef block
  | .weak (some block) => addWeak block
  | _ => pure ()

/-- The fields of a new object, each made by its default constructor. -/
def newFields (object : ℕ) (kinds : List HandleKind) : HandleName → Option Handle
  | .field other index => if other = object then kinds[index]?.map Handle.empty else none
  | _ => none

/-- The names of the fields of a new object. -/
def fieldNames (object : ℕ) (kinds : List HandleKind) : List HandleName :=
  (List.range kinds.length).map (.field object)

theorem mem_fieldNames (object : ℕ) (kinds : List HandleKind) (name : HandleName) :
    name ∈ fieldNames object kinds ↔ (newFields object kinds name).isSome := by
  cases name with
  | root index => simp [fieldNames, newFields]
  | temporary => simp [fieldNames, newFields]
  | field other index =>
    by_cases hother : other = object
    · simp [fieldNames, newFields, hother]
    · simp [fieldNames, newFields, hother, Ne.symm hother]

/-- A fresh object with its fields, and the control block made for it. -/
def newObject (kinds : List HandleKind) : PtrM ℕ := do
  let s ← get
  set { s with
    handles := s.handles.overlay (newFields s.created kinds) (fieldNames s.created kinds)
      (mem_fieldNames s.created kinds)
    created := s.created + 1
    objects := Function.update s.objects s.created ⟨kinds.length, 0⟩
    blocks := Function.update s.blocks s.created ⟨1, 0, false, some s.created, 0⟩ }
  return s.created

/-- `SharedPtr(ptr)` on a fresh raw pointer. -/
def constructRaw (name : HandleName) (kinds : List HandleKind) : PtrM Unit := do
  let object ← newObject kinds
  createHandle name (.shared (some object) (some object))

/-- The copy constructors. -/
def copyConstruct (name source : HandleName) : PtrM Unit := do
  let handle ← readHandle source
  createHandle name handle
  addCb handle

/-- The move constructors. -/
def moveConstruct (name source : HandleName) : PtrM Unit := do
  let handle ← readHandle source
  modifyHandle source fun other ↦ other.clearCb.clearPtr
  createHandle name handle

/-- `WeakPtr(shared)`. -/
def weakConstruct (name source : HandleName) : PtrM Unit := do
  match ← readHandle source with
  | .shared cb _ =>
    createHandle name (.weak cb)
    addCb (.weak cb)
  | .weak _ => throw .badAccess

/-- `use_count()`. -/
def useCount : Handle → PtrM ℕ
  | .shared (some block) _ | .weak (some block) => do return (← readBlock block).useCnt
  | _ => return 0

/-- `Lock`, whose result initializes a new handle. -/
def lock (name source : HandleName) : PtrM Unit := do
  let handle ← readHandle source
  if (← useCount handle) = 0 then
    createHandle name (.empty .shared)
  else
    match handle with
    | .weak (some block) =>
      let ptr := (← readBlock block).ptr
      createHandle name (.shared (some block) ptr)
      addRef block
    | _ => throw .badAccess

/-! ### Modifiers and destruction -/

/-- `Swap`. -/
def swap (first second : HandleName) : PtrM Unit := do
  let handle ← readHandle first
  let handle' ← readHandle second
  modifyHandle first fun _ ↦ handle'
  modifyHandle second fun _ ↦ handle

/-- The destructors. -/
def destroy (name : HandleName) : PtrM Unit := do
  destroyHandle (release (← fuel)) name

/-- The end of an assignment, once the by-value parameter was made. -/
def assignTemporary (name : HandleName) : PtrM Unit := do
  swap name .temporary
  destroy .temporary

/-- Assignment from a handle of the same class. -/
def copyAssign (name source : HandleName) : PtrM Unit := do
  copyConstruct .temporary source
  assignTemporary name

/-- Assignment from an rvalue of the same class. -/
def moveAssign (name source : HandleName) : PtrM Unit := do
  moveConstruct .temporary source
  assignTemporary name

/-- Assignment of a `SharedPtr` to a `WeakPtr`. -/
def weakAssign (name source : HandleName) : PtrM Unit := do
  weakConstruct .temporary source
  assignTemporary name

/-- Assignment of an empty handle. -/
def emptyAssign (name : HandleName) : PtrM Unit := do
  createHandle .temporary (.empty (← readHandle name).kind)
  assignTemporary name

/-- `Reset(ptr)` on a fresh raw pointer. -/
def resetTo (name : HandleName) (kinds : List HandleKind) : PtrM Unit := do
  constructRaw .temporary kinds
  assignTemporary name

/-- `Reset()`, which gives up the reference before it clears the handle. -/
def reset (name : HandleName) : PtrM Unit := do
  let handle ← readHandle name
  releaseCb (release (← fuel)) handle
  modifyHandle name Handle.clearCb
  modifyHandle name Handle.clearPtr

/-! ### The interface -/

/-- An operation on handles. New handles are variables of the program. -/
inductive Op
  | constructEmpty (name : ℕ) (kind : HandleKind)
  | constructRaw (name : ℕ) (kinds : List HandleKind)
  | copyConstruct (name : ℕ) (source : HandleName)
  | moveConstruct (name : ℕ) (source : HandleName)
  | weakConstruct (name : ℕ) (source : HandleName)
  | lock (name : ℕ) (source : HandleName)
  | copyAssign (name source : HandleName)
  | moveAssign (name source : HandleName)
  | weakAssign (name source : HandleName)
  | emptyAssign (name : HandleName)
  | resetTo (name : HandleName) (kinds : List HandleKind)
  | swap (first second : HandleName)
  | reset (name : HandleName)
  | destroy (name : ℕ)
  deriving DecidableEq, Repr

/-- Run one operation. -/
def exec : Op → PtrM Unit
  | .constructEmpty name kind => createHandle (.root name) (.empty kind)
  | .constructRaw name kinds => SharedPtr.constructRaw (.root name) kinds
  | .copyConstruct name source => SharedPtr.copyConstruct (.root name) source
  | .moveConstruct name source => SharedPtr.moveConstruct (.root name) source
  | .weakConstruct name source => SharedPtr.weakConstruct (.root name) source
  | .lock name source => SharedPtr.lock (.root name) source
  | .copyAssign name source => SharedPtr.copyAssign name source
  | .moveAssign name source => SharedPtr.moveAssign name source
  | .weakAssign name source => SharedPtr.weakAssign name source
  | .emptyAssign name => SharedPtr.emptyAssign name
  | .resetTo name kinds => SharedPtr.resetTo name kinds
  | .swap first second => SharedPtr.swap first second
  | .reset name => SharedPtr.reset name
  | .destroy name => SharedPtr.destroy (.root name)

/-- The class of a handle that exists. -/
def State.kind? (s : State) (name : HandleName) : Option HandleKind :=
  (s.handles.cell name).map Handle.kind

/-- A variable of the program. -/
def HandleName.isRoot : HandleName → Bool
  | .root _ => true
  | _ => false

/-- The precondition of an operation: its handles exist and are of the right class, and a new
handle has a new name. The `Reset()` of a `SharedPtr` is used on variables only. -/
def Op.Valid (s : State) : Op → Prop
  | .constructEmpty name _ | .constructRaw name _ => s.kind? (.root name) = none
  | .copyConstruct name source | .moveConstruct name source =>
    s.kind? (.root name) = none ∧ s.kind? source ≠ none
  | .weakConstruct name source => s.kind? (.root name) = none ∧ s.kind? source = some .shared
  | .lock name source => s.kind? (.root name) = none ∧ s.kind? source = some .weak
  | .copyAssign name source | .moveAssign name source | .swap name source =>
    s.kind? name ≠ none ∧ s.kind? name = s.kind? source
  | .weakAssign name source => s.kind? name = some .weak ∧ s.kind? source = some .shared
  | .emptyAssign name => s.kind? name ≠ none
  | .resetTo name _ => s.kind? name = some .shared
  | .reset name => s.kind? name = some .weak ∨ s.kind? name = some .shared ∧ name.isRoot = true
  | .destroy name => s.kind? (.root name) ≠ none

instance (s : State) : (op : Op) → Decidable (op.Valid s)
  | .constructEmpty name _ | .constructRaw name _ =>
    inferInstanceAs (Decidable (s.kind? (.root name) = none))
  | .copyConstruct name source | .moveConstruct name source =>
    inferInstanceAs (Decidable (s.kind? (.root name) = none ∧ s.kind? source ≠ none))
  | .weakConstruct name source =>
    inferInstanceAs (Decidable (s.kind? (.root name) = none ∧ s.kind? source = some .shared))
  | .lock name source =>
    inferInstanceAs (Decidable (s.kind? (.root name) = none ∧ s.kind? source = some .weak))
  | .copyAssign name source | .moveAssign name source | .swap name source =>
    inferInstanceAs (Decidable (s.kind? name ≠ none ∧ s.kind? name = s.kind? source))
  | .weakAssign name source =>
    inferInstanceAs (Decidable (s.kind? name = some .weak ∧ s.kind? source = some .shared))
  | .emptyAssign name => inferInstanceAs (Decidable (s.kind? name ≠ none))
  | .resetTo name _ => inferInstanceAs (Decidable (s.kind? name = some .shared))
  | .reset name => inferInstanceAs (Decidable
      (s.kind? name = some .weak ∨ s.kind? name = some .shared ∧ name.isRoot = true))
  | .destroy name => inferInstanceAs (Decidable (s.kind? (.root name) ≠ none))

/-- Run operations one after another, each of them only if its precondition holds. -/
def run : List Op → State → Option State
  | [], s => some s
  | op :: ops, s =>
    if op.Valid s then
      match exec op s with
      | .ok _ s' => run ops s'
      | .error _ _ => none
    else none

/-- Nothing was created yet. -/
def State.start : State where
  handles := .empty
  created := 0
  objects _ := ⟨0, 0⟩
  blocks _ := ⟨0, 0, false, none, 0⟩
  underflowed := false

/-- The states that a program reaches. -/
inductive Reachable : State → Prop
  | start : Reachable .start
  | step {s s' : State} (op : Op) (hreach : Reachable s) (hvalid : op.Valid s)
      (hexec : exec op s = .ok () s') : Reachable s'

end StudStuff.SharedPtr
