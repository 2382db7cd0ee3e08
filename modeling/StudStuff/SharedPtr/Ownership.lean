import StudStuff.SharedPtr.Safety

/-!
# Taking ownership of a raw pointer

The constructors of `SharedPtr` on a raw pointer, and `Reset` on one, when taking ownership fails.
A `Call` is made with a raw pointer to a fresh object (`State.withRaw`), and with a deleter if it
is `SharedPtr(ptr, del)`. Three steps of it can throw: the allocation of the control block, and the
two moves that bring the deleter from the parameter `del` of the constructor over the parameter of
`CbRegular` into the block (`FailurePoint`). A move that succeeds leaves nothing in the variable it
moves from, and one that throws leaves the variable as it was. `throwsAt` says which steps throw;
allocating comes before the initializer is evaluated. Moves of the default deleters cannot throw.

A call that fails is to dispose of the pointer once and to leave everything else as it was
(`Disposed`). It does, unless it is the second move that throws: the handler then calls a deleter
that has been moved from (`throws_disposes_iff`).
-/

set_option autoImplicit false
set_option relaxedAutoImplicit false

namespace StudStuff.SharedPtr

open Lib

variable {D : Type}

/-! ### Worlds -/

/-- The steps of taking ownership that can throw. -/
inductive FailurePoint
  | allocation
  | parameterMove
  | tupleMove
  deriving DecidableEq, Repr

/-- The variables that hold a deleter during a call: the parameter of the constructor of
`SharedPtr`, the parameter of the constructor of `CbRegular`, and `deleter_tup_`. -/
inductive DeleterName
  | argument
  | parameter
  | stored
  deriving DecidableEq, Repr

/-- The memory of a program during a call. -/
structure World (D : Type) where
  memory : State
  /-- The deleters that can be used. -/
  deleters : DeleterName → Option D
  /-- The calls of deleters on raw pointers, where `none` is the default deleter. -/
  calls : List (Option D × Option ℕ)

/-- Why a call does not return. -/
inductive Stop
  | thrown (point : FailurePoint)
  | movedFromDeleter
  | fault (fault : Fault)
  deriving DecidableEq, Repr

/-- A program that takes ownership. -/
abbrev OwnM (D : Type) := EStateM Stop (World D)

/-- A program over handles. -/
def lift {α : Type} (program : PtrM α) : OwnM D α := fun w ↦
  match program w.memory with
  | .ok value s => .ok value { w with memory := s }
  | .error reason s => .error (.fault reason) { w with memory := s }

/-- A function try block: whatever is thrown, the handler runs, and throws it again. -/
def catchAll (program handler : OwnM D Unit) : OwnM D Unit :=
  catching program fun
    | .thrown point => do
      handler
      throw (.thrown point)
    | stop => throw stop

/-! ### Deleters and control blocks -/

/-- The block of a number for which there is none. -/
def Block.absent : Block := ⟨0, 0, false, none, 1⟩

/-- A block whose counters and pointer have been initialized. -/
def Block.fresh (object : ℕ) : Block := ⟨1, 0, false, some object, 0⟩

/-- A control block may be accessed. -/
def State.HasBlock (s : State) (block : ℕ) : Prop := block < s.created ∧ (s.blocks block).freed = 0

/-- Set a block. -/
def setBlock (block : ℕ) (cb : Block) : PtrM Unit := modify fun s ↦ s.withBlock block cb

/-- The object of a raw pointer is destroyed by a deleter. -/
def disposeOf (deleter : Option D) (ptr : Option ℕ) : OwnM D Unit := do
  lift (do deletePtr (release (← fuel)) ptr)
  modify fun w ↦ { w with calls := w.calls ++ [(deleter, ptr)] }

/-- `del(ptr)`, which must not happen when `del` has been moved from. -/
def callDeleter (name : DeleterName) (ptr : Option ℕ) : OwnM D Unit := do
  match (← get).deleters name with
  | some deleter => disposeOf (some deleter) ptr
  | none => throw .movedFromDeleter

/-- A move of a deleter that succeeds. -/
def World.moved (w : World D) (source target : DeleterName) : World D :=
  let deleters := Function.update w.deleters target (w.deleters source)
  { w with deleters := Function.update deleters source none }

section Programs

variable (throwsAt : FailurePoint → Bool)

/-- A step throws, or goes on. -/
def mayThrow (point : FailurePoint) : OwnM D Unit :=
  if throwsAt point then throw (.thrown point) else pure ()

/-- A variable is initialized with `std::move` of another one. -/
def moveDeleter (point : FailurePoint) (source target : DeleterName) : OwnM D Unit := do
  mayThrow throwsAt point
  modify fun w ↦ w.moved source target

/-- The moves of `del` into the parameter of `CbRegular` and from there into `deleter_tup_`. -/
def moveDeleters : OwnM D Unit := do
  moveDeleter throwsAt .parameterMove .argument .parameter
  moveDeleter throwsAt .tupleMove .parameter .stored

/-- `ptr ? new CbRegular(ptr, ...) : nullptr`. The memory of the block is freed when its
initialization throws. -/
def newCbRegular (storeDeleter : OwnM D Unit) : Option ℕ → OwnM D Unit
  | none => pure ()
  | some object => do
    mayThrow throwsAt .allocation
    lift (setBlock object (.fresh object))
    catchAll storeDeleter (lift (setBlock object .absent))

/-- `SharedPtr(ptr)`. -/
def takeOwnership (name : HandleName) (ptr : Option ℕ) : OwnM D Unit :=
  catchAll
    (do newCbRegular throwsAt (pure ()) ptr
        lift (createHandle name (.shared ptr ptr)))
    (disposeOf none ptr)

/-- `SharedPtr(ptr, del)`. -/
def takeOwnershipWith (name : HandleName) (ptr : Option ℕ) : OwnM D Unit :=
  catchAll
    (do newCbRegular throwsAt (moveDeleters throwsAt) ptr
        lift (createHandle name (.shared ptr ptr)))
    (callDeleter .argument ptr)

end Programs

/-! ### Calls -/

/-- A call that takes ownership. -/
inductive Call
  | construct (name : ℕ)
  | constructWith (name : ℕ)
  | reset (name : HandleName)
  deriving DecidableEq, Repr

namespace Call

/-- Run a call. -/
def exec (throwsAt : FailurePoint → Bool) (ptr : Option ℕ) : Call → OwnM D Unit
  | construct name => takeOwnership throwsAt (.root name) ptr
  | constructWith name => takeOwnershipWith throwsAt (.root name) ptr
  | reset name => do
    takeOwnership throwsAt .temporary ptr
    lift (assignTemporary name)

/-- The operation that a call is when nothing throws. -/
def toOp (kinds : List HandleKind) : Call → Op
  | construct name | constructWith name => .constructRaw name kinds
  | reset name => .resetTo name kinds

/-- The steps of a call that can throw, in their order. -/
def points : Call → List FailurePoint
  | constructWith _ => [.allocation, .parameterMove, .tupleMove]
  | _ => [.allocation]

/-- The deleter that is responsible for the pointer, where `none` is the default deleter. -/
def deleter (del : D) : Call → Option D
  | constructWith _ => some del
  | _ => none

end Call

/-- The memory when a fresh object was allocated and nothing owns it. -/
def State.withRaw (s : State) (kinds : List HandleKind) : State :=
  (s.extended kinds).withBlock s.created .absent

/-- The world in which a call has received its arguments. -/
def World.received (del : D) (s : State) : World D where
  memory := s
  deleters := Function.update (fun _ ↦ none) .argument (some del)
  calls := []

/-- The pointer that was created in a state was disposed of once by a deleter, and everything else
is as it was. -/
structure Disposed (deleter : Option D) (s : State) (w : World D) : Prop where
  calls : w.calls = [(deleter, some s.created)]
  destroyed : (w.memory.objects s.created).destroyed = 1
  objects : ∀ object < s.created, w.memory.objects object = s.objects object
  handles : w.memory.handles = s.handles
  counts : ∀ block < s.created, w.memory.blocks block = s.blocks block
  blocks : ∀ block, w.memory.HasBlock block → s.HasBlock block

/-- The states that a program reaches when taking ownership may fail. -/
inductive ReachableThrowing : State → Prop
  | start : ReachableThrowing .start
  | step {s s' : State} (op : Op) (hreach : ReachableThrowing s) (hvalid : op.Valid s)
      (hexec : exec op s = .ok () s') : ReachableThrowing s'
  | throws {D : Type} {s : State} {call : Call} {kinds : List HandleKind}
      {throwsAt : FailurePoint → Bool} {del : D} {point : FailurePoint} {w : World D}
      (hreach : ReachableThrowing s) (hvalid : (call.toOp kinds).Valid s)
      (hexec : call.exec throwsAt (some s.created) (.received del (s.withRaw kinds)) =
        .error (.thrown point) w) : ReachableThrowing w.memory

/-! ### Runs of the programs -/

section Runs

variable {w w₁ w₂ : World D} {throwsAt : FailurePoint → Bool} {point : FailurePoint}

theorem lift_ok {α : Type} {program : PtrM α} {value : α} {s : State}
    (h : program w.memory = .ok value s) : lift program w = .ok value { w with memory := s } := by
  rw [lift, h]

theorem catchAll_ok {program : OwnM D Unit} (h : program w = .ok () w₁) (handler : OwnM D Unit) :
    catchAll program handler w = .ok () w₁ :=
  catching_ok h _

/-- When the handler returns, what was thrown is thrown again. -/
theorem catchAll_rethrows {program handler : OwnM D Unit}
    (h : program w = .error (.thrown point) w₁) (hhandler : handler w₁ = .ok () w₂) :
    catchAll program handler w = .error (.thrown point) w₂ :=
  (catching_error h _).trans (bind_ok hhandler)

theorem catchAll_stops {program handler : OwnM D Unit} {stop : Stop}
    (h : program w = .error (.thrown point) w₁) (hhandler : handler w₁ = .error stop w₂) :
    catchAll program handler w = .error stop w₂ :=
  (catching_error h _).trans (bind_error hhandler)

theorem mayThrow_throws (h : throwsAt point = true) :
    mayThrow throwsAt point w = .error (.thrown point) w := by
  rw [mayThrow, if_pos h]
  rfl

theorem mayThrow_passes (h : throwsAt point = false) : mayThrow throwsAt point w = .ok () w := by
  rw [mayThrow, if_neg (Bool.eq_false_iff.mp h)]
  rfl

theorem disposeOf_run {ptr : Option ℕ} {s : State}
    (hdelete : deletePtr (release (w.memory.created + 1)) ptr w.memory = .ok () s)
    (deleter : Option D) : disposeOf deleter ptr w =
      .ok () { w with memory := s, calls := w.calls ++ [(deleter, ptr)] } :=
  bind_ok (lift_ok ((bind_ok (fuel_apply w.memory)).trans hdelete))

/-! ### The moves of the deleter -/

theorem moveDeleter_passes (h : throwsAt point = false) (source target : DeleterName) :
    moveDeleter throwsAt point source target w = .ok () (w.moved source target) :=
  bind_ok (mayThrow_passes h)

/-- The first move throws, and the deleter is still there. -/
theorem moveDeleters_parameter (h : throwsAt .parameterMove = true) :
    moveDeleters throwsAt w = .error (.thrown .parameterMove) w :=
  bind_error (bind_error (mayThrow_throws h))

/-- The second move throws, and the deleter is in the parameter of `CbRegular`. -/
theorem moveDeleters_tuple (hfirst : throwsAt .parameterMove = false)
    (h : throwsAt .tupleMove = true) :
    moveDeleters throwsAt w = .error (.thrown .tupleMove) (w.moved .argument .parameter) :=
  (bind_ok (moveDeleter_passes hfirst .argument .parameter)).trans
    (bind_error (mayThrow_throws h))

theorem moveDeleters_returns (hfirst : throwsAt .parameterMove = false)
    (h : throwsAt .tupleMove = false) : moveDeleters throwsAt w =
      .ok () ((w.moved .argument .parameter).moved .parameter .stored) :=
  (bind_ok (moveDeleter_passes hfirst .argument .parameter)).trans
    (moveDeleter_passes h .parameter .stored)

/-! ### The control block -/

section Block

variable {object : ℕ} {storeDeleter : OwnM D Unit}

theorem setBlock_run (cb : Block) :
    lift (setBlock object cb) w = .ok () { w with memory := w.memory.withBlock object cb } :=
  rfl

theorem newCbRegular_allocation (h : throwsAt .allocation = true) :
    newCbRegular throwsAt storeDeleter (some object) w = .error (.thrown .allocation) w :=
  bind_error (mayThrow_throws h)

/-- When the initialization of the block throws, the memory is what it was before. -/
theorem newCbRegular_frees (storeDeleter : OwnM D Unit) (h : throwsAt .allocation = false)
    (habsent : w.memory.blocks object = .absent) {deleters : DeleterName → Option D}
    (hstore : storeDeleter { w with memory := w.memory.withBlock object (.fresh object) } =
      .error (.thrown point)
        { w with memory := w.memory.withBlock object (.fresh object), deleters := deleters }) :
    newCbRegular throwsAt storeDeleter (some object) w =
      .error (.thrown point) { w with deleters := deleters } := by
  have hback : (w.memory.withBlock object (.fresh object)).withBlock object .absent = w.memory := by
    rw [withBlock_withBlock, State.withBlock, ← habsent, Function.update_eq_self]
  refine (bind_ok (mayThrow_passes h)).trans ((bind_ok (setBlock_run _)).trans ?_)
  refine (catchAll_rethrows hstore (setBlock_run _)).trans ?_
  rw [hback]

theorem newCbRegular_returns (object : ℕ) (h : throwsAt .allocation = false)
    {deleters : DeleterName → Option D}
    (hstore : storeDeleter { w with memory := w.memory.withBlock object (.fresh object) } =
      .ok () { w with memory := w.memory.withBlock object (.fresh object), deleters := deleters }) :
    newCbRegular throwsAt storeDeleter (some object) w = .ok ()
      { w with memory := w.memory.withBlock object (.fresh object), deleters := deleters } :=
  (bind_ok (mayThrow_passes h)).trans ((bind_ok (setBlock_run _)).trans (catchAll_ok hstore _))

end Block

/-! ### The constructors -/

section Constructors

variable {object : ℕ} {s : State} {del : D}

/-- The memory when a new handle owns the object. -/
def State.owned (s : State) (name : HandleName) (object : ℕ) : State :=
  { s.withBlock object (.fresh object) with
    handles := s.handles.store name (.shared (some object) (some object)) }

theorem createOwner_run (name : HandleName) (handle : Handle) :
    lift (createHandle name handle) w = .ok ()
      { w with memory := { w.memory with handles := w.memory.handles.store name handle } } :=
  rfl

theorem takeOwnership_throws (h : throwsAt .allocation = true)
    (hdelete : deletePtr (release (w.memory.created + 1)) (some object) w.memory = .ok () s)
    (name : HandleName) : takeOwnership throwsAt name (some object) w =
      .error (.thrown .allocation)
        { w with memory := s, calls := w.calls ++ [(none, some object)] } :=
  catchAll_rethrows (bind_error (newCbRegular_allocation h)) (disposeOf_run hdelete none)

theorem takeOwnership_returns (object : ℕ) (h : throwsAt .allocation = false)
    (name : HandleName) :
    takeOwnership throwsAt name (some object) w =
      .ok () { w with memory := w.memory.owned name object } := by
  have hreturns := newCbRegular_returns (w := w) object h (pure_apply () _)
  exact catchAll_ok ((bind_ok hreturns).trans (createOwner_run name _)) _

/-- The constructor with a deleter runs the handler in the world in which `CbRegular` failed, whose
memory is the one before. -/
theorem takeOwnershipWith_fails {deleters : DeleterName → Option D}
    (hfails : newCbRegular throwsAt (moveDeleters throwsAt) (some object) w =
      .error (.thrown point) { w with deleters := deleters })
    (hdel : deleters .argument = some del)
    (hdelete : deletePtr (release (w.memory.created + 1)) (some object) w.memory = .ok () s)
    (name : HandleName) : takeOwnershipWith throwsAt name (some object) w =
      .error (.thrown point) ⟨s, deleters, w.calls ++ [(some del, some object)]⟩ := by
  have hcall : callDeleter .argument (some object) { w with deleters := deleters } =
      .ok () ⟨s, deleters, w.calls ++ [(some del, some object)]⟩ := by
    rw [callDeleter, bind_ok (get_apply _)]
    dsimp only
    rw [hdel]
    exact disposeOf_run (w := { w with deleters := deleters }) hdelete (some del)
  exact catchAll_rethrows (bind_error hfails) hcall

theorem takeOwnershipWith_throws (hdel : w.deleters .argument = some del)
    (habsent : w.memory.blocks object = .absent)
    (hdelete : deletePtr (release (w.memory.created + 1)) (some object) w.memory = .ok () s)
    (hfirst : throwsAt .allocation = true ∧ point = .allocation ∨
      throwsAt .allocation = false ∧ throwsAt .parameterMove = true ∧ point = .parameterMove)
    (name : HandleName) : takeOwnershipWith throwsAt name (some object) w =
      .error (.thrown point)
        { w with memory := s, calls := w.calls ++ [(some del, some object)] } := by
  rcases hfirst with ⟨h, rfl⟩ | ⟨h, hmove, rfl⟩
  · exact takeOwnershipWith_fails (newCbRegular_allocation h) hdel hdelete name
  · have hfrees := newCbRegular_frees (moveDeleters throwsAt) h habsent
      (moveDeleters_parameter hmove)
    exact takeOwnershipWith_fails hfrees hdel hdelete name

/-- When the second move throws, the handler calls the deleter that the first one has moved. -/
theorem takeOwnershipWith_misuses (habsent : w.memory.blocks object = .absent)
    (h : throwsAt .allocation = false) (hmove : throwsAt .parameterMove = false)
    (htuple : throwsAt .tupleMove = true) (name : HandleName) :
    ∃ w', takeOwnershipWith throwsAt name (some object) w = .error .movedFromDeleter w' := by
  have hfrees := newCbRegular_frees (moveDeleters throwsAt) h habsent
    (moveDeleters_tuple hmove htuple)
  exact ⟨_, catchAll_stops (bind_error hfrees) rfl⟩

theorem takeOwnershipWith_returns (object : ℕ) (h : throwsAt .allocation = false)
    (hmove : throwsAt .parameterMove = false) (htuple : throwsAt .tupleMove = false)
    (name : HandleName) : ∃ w', takeOwnershipWith throwsAt name (some object) w = .ok () w' ∧
      w'.memory = w.memory.owned name object := by
  have hreturns := newCbRegular_returns (w := w) object h
    (moveDeleters_returns hmove htuple)
  exact ⟨_, catchAll_ok ((bind_ok hreturns).trans (createOwner_run name _)) _, rfl⟩

end Constructors

end Runs

/-! ### The fresh object -/

section Fresh

variable {s : State} {kinds : List HandleKind}

/-- The memory when the fresh object was destroyed. -/
def State.disposed (s : State) (kinds : List HandleKind) : State where
  handles := s.handles
  created := s.created + 1
  objects := Function.update s.objects s.created ⟨kinds.length, 1⟩
  blocks := Function.update s.blocks s.created .absent
  underflowed := s.underflowed

/-- Destroying handles that are not attached ends their lifetimes. -/
theorem destroyFields_empty (release : ℕ → PtrM Unit) {object : ℕ} {t : State} (count : ℕ)
    (hempty : ∀ index < count, ∃ kind,
      t.handles.cell (.field object index) = some (.empty kind)) :
    destroyFields release object count t = .ok () { t with
      handles := t.handles.releaseAll ((List.range count).map (.field object)) } := by
  induction count generalizing t with
  | zero =>
    have hsame : t.handles.releaseAll [] = t.handles := Heap.ext_cell fun other ↦ by simp
    exact congrArg (fun handles ↦ EStateM.Result.ok () { t with handles := handles }) hsame.symm
  | succ count ih =>
    obtain ⟨kind, hkind⟩ := hempty count (Nat.lt_succ_self count)
    have hrelease : releaseCb release (.empty kind) = pure () := by
      cases kind <;> rfl
    have hdestroy : destroyHandle release (.field object count) t =
        .ok () { t with handles := t.handles.release (.field object count) } := by
      rw [destroyHandle, bind_ok (takeHandle_apply hkind), hrelease]
      rfl
    have hrest : ∀ index < count, ∃ kind, (t.handles.release (.field object count)).cell
        (.field object index) = some (.empty kind) := by
      intro index hindex
      rw [Heap.cell_release, if_neg (by simp [hindex.ne])]
      exact hempty index (Nat.lt_succ_of_lt hindex)
    refine (bind_ok hdestroy).trans ((ih hrest).trans ?_)
    have hheap : (t.handles.release (.field object count)).releaseAll
        ((List.range count).map (.field object)) =
          t.handles.releaseAll ((List.range (count + 1)).map (.field object)) := by
      apply Heap.ext_cell
      intro other
      rw [Heap.cell_releaseAll, Heap.cell_releaseAll, Heap.cell_release, List.range_succ,
        List.map_append, List.map_singleton]
      by_cases hother : other = .field object count
      · simp [hother]
      · simp [hother]
    rw [hheap]

/-- The deleter of a fresh object leaves nothing of it. -/
theorem deletePtr_withRaw (h : Invariant s [] []) (kinds : List HandleKind)
    (release : ℕ → PtrM Unit) :
    deletePtr release (some s.created) (s.withRaw kinds) = .ok () (s.disposed kinds) := by
  have hobject : (s.withRaw kinds).objects s.created = ⟨kinds.length, 0⟩ :=
    objects_extended_self s kinds
  have hempty : ∀ index < kinds.length, ∃ kind,
      ((s.withRaw kinds).marked s.created).handles.cell (.field s.created index) =
        some (.empty kind) := by
    intro index hindex
    refine ⟨kinds[index], (cell_extended s kinds _).trans ?_⟩
    rw [newFields, if_pos rfl, List.getElem?_eq_getElem hindex]
    rfl
  have hfields := destroyFields_empty release kinds.length hempty
  have hmarked : (s.withRaw kinds).marked s.created =
      { s.disposed kinds with handles := (s.extended kinds).handles } := by
    apply State.ext
    · rfl
    · rfl
    · simp [State.marked, State.disposed, State.withRaw, State.extended, State.withBlock]
    · simp [State.marked, State.disposed, State.withRaw, State.extended, State.withBlock]
    · rfl
  have hheap : (s.extended kinds).handles.releaseAll (fieldNames s.created kinds) = s.handles :=
    Heap.releaseAll_overlay (mem_fieldNames s.created kinds) fun _ ↦ h.newFields_dead
  refine deleteObject_run (congrArg Object.destroyed hobject) ?_
  rw [hobject]
  refine hfields.trans ?_
  rw [hmarked]
  exact congrArg (fun handles ↦ EStateM.Result.ok () { s.disposed kinds with handles := handles })
    hheap

theorem blocks_disposed_of_ne (s : State) (kinds : List HandleKind) {block : ℕ}
    (hblock : block ≠ s.created) : (s.disposed kinds).blocks block = s.blocks block :=
  Function.update_of_ne hblock ..

theorem objects_disposed_of_ne (s : State) (kinds : List HandleKind) {object : ℕ}
    (hobject : object ≠ s.created) : (s.disposed kinds).objects object = s.objects object :=
  Function.update_of_ne hobject ..

theorem blocks_disposed_self (s : State) (kinds : List HandleKind) :
    (s.disposed kinds).blocks s.created = .absent :=
  Function.update_self ..

theorem objects_disposed_self (s : State) (kinds : List HandleKind) :
    (s.disposed kinds).objects s.created = ⟨kinds.length, 1⟩ :=
  Function.update_self ..

/-- An object that was created and destroyed leaves the invariant as it is. -/
theorem Invariant.disposed (h : Invariant s [] []) (kinds : List HandleKind) :
    Invariant (s.disposed kinds) [] [] := by
  have huncreated := h.uncreated s.created (Nat.le_refl _)
  apply h.fresh
  · rfl
  · rfl
  · intro block hblock
    exact blocks_disposed_of_ne s kinds hblock
  · intro object hobject
    exact objects_disposed_of_ne s kinds hobject
  · intro object _ index
    rfl
  · intro block
    refine Eq.trans ?_ (h.use block)
    by_cases hsame : block = s.created
    · rw [hsame, blocks_disposed_self, huncreated.1, Block.absent]
    · rw [blocks_disposed_of_ne s kinds hsame]
  · intro block
    refine Eq.trans ?_ (h.weak block)
    by_cases hsame : block = s.created
    · rw [hsame, blocks_disposed_self, huncreated.2, Block.absent]
    · rw [blocks_disposed_of_ne s kinds hsame]
  · rw [blocks_disposed_self, Block.absent]
  · rw [blocks_disposed_self, objects_disposed_self, Block.absent, if_pos rfl]
  · rw [blocks_disposed_self]
    rfl
  · rw [blocks_disposed_self]
    rfl
  · intro index
    have hdead := h.no_field index
    rw [objects_disposed_self]
    simp [State.disposed, hdead]

theorem Sound.disposed (h : Sound s) (kinds : List HandleKind) : Sound (s.disposed kinds) :=
  ⟨h.invariant.disposed kinds, h.temporary⟩

/-- What the disposal of the fresh object leaves. -/
theorem disposed_of_memory {deleter : Option D} {w : World D}
    (hmemory : w.memory = s.disposed kinds) (hcalls : w.calls = [(deleter, some s.created)]) :
    Disposed deleter s w := by
  constructor
  case calls => exact hcalls
  case destroyed => rw [hmemory, objects_disposed_self]
  case objects =>
    intro object hlt
    rw [hmemory, objects_disposed_of_ne s kinds hlt.ne]
  case handles => rw [hmemory, State.disposed]
  case counts =>
    intro block hlt
    rw [hmemory, blocks_disposed_of_ne s kinds hlt.ne]
  case blocks =>
    intro block hblock
    rw [hmemory] at hblock
    obtain ⟨hlt, hfreed⟩ := hblock
    by_cases hsame : block = s.created
    · rw [hsame, blocks_disposed_self] at hfreed
      cases hfreed
    · rw [blocks_disposed_of_ne s kinds hsame] at hfreed
      exact ⟨Nat.lt_of_le_of_ne (Nat.le_of_lt_succ hlt) hsame, hfreed⟩

end Fresh

/-! ### Calls that fail -/

section Calls

variable {s : State} {kinds : List HandleKind} {throwsAt : FailurePoint → Bool} {call : Call}
  {point : FailurePoint}

/-- The first step that throws, when the default deleter is used. -/
theorem points_default (hpoint : List.find? throwsAt [.allocation] = some point) :
    throwsAt .allocation = true ∧ point = .allocation := by
  by_cases h : throwsAt .allocation = true
  · rw [List.find?_cons_of_pos h] at hpoint
    exact ⟨h, (Option.some.inj hpoint).symm⟩
  · rw [List.find?_cons_of_neg h] at hpoint
    cases hpoint

/-- The first step that throws, when a deleter is given. -/
theorem points_custom
    (hpoint : List.find? throwsAt [.allocation, .parameterMove, .tupleMove] = some point) :
    (throwsAt .allocation = true ∧ point = .allocation ∨
      throwsAt .allocation = false ∧ throwsAt .parameterMove = true ∧ point = .parameterMove) ∨
    throwsAt .allocation = false ∧ throwsAt .parameterMove = false ∧
      throwsAt .tupleMove = true ∧ point = .tupleMove := by
  by_cases h : throwsAt .allocation = true
  · rw [List.find?_cons_of_pos h] at hpoint
    exact Or.inl (Or.inl ⟨h, (Option.some.inj hpoint).symm⟩)
  rw [List.find?_cons_of_neg h] at hpoint
  by_cases hmove : throwsAt .parameterMove = true
  · rw [List.find?_cons_of_pos hmove] at hpoint
    exact Or.inl (Or.inr ⟨Bool.eq_false_iff.mpr h, hmove, (Option.some.inj hpoint).symm⟩)
  rw [List.find?_cons_of_neg hmove] at hpoint
  by_cases htuple : throwsAt .tupleMove = true
  · rw [List.find?_cons_of_pos htuple] at hpoint
    exact Or.inr ⟨Bool.eq_false_iff.mpr h, Bool.eq_false_iff.mpr hmove, htuple,
      (Option.some.inj hpoint).symm⟩
  · rw [List.find?_cons_of_neg htuple] at hpoint
    cases hpoint

/-- A call that fails runs the deleter of the pointer, whatever the object of the pointer owns, and
does nothing else, unless the second move throws. -/
theorem call_throws {t t' : State} {object : ℕ} (habsent : t.blocks object = .absent)
    (hdelete : deletePtr (release (t.created + 1)) (some object) t = .ok () t')
    (hpoint : call.points.find? throwsAt = some point) (hne : point ≠ .tupleMove) (del : D) :
    ∃ w, call.exec throwsAt (some object) (.received del t) = .error (.thrown point) w ∧
      w.memory = t' ∧ w.calls = [(call.deleter del, some object)] := by
  cases call with
  | construct name =>
    obtain ⟨hthrows, rfl⟩ := points_default hpoint
    have hrun := takeOwnership_throws (w := .received del t) hthrows hdelete (.root name)
    exact ⟨_, hrun, rfl, rfl⟩
  | constructWith name =>
    rcases points_custom hpoint with hfirst | ⟨-, -, -, htuple⟩
    · have hargument : (World.received del t).deleters .argument = some del := rfl
      exact ⟨_, takeOwnershipWith_throws hargument habsent hdelete hfirst (.root name), rfl, rfl⟩
    · exact absurd htuple hne
  | reset name =>
    obtain ⟨hthrows, rfl⟩ := points_default hpoint
    have hrun := takeOwnership_throws (w := .received del t) hthrows hdelete .temporary
    exact ⟨_, bind_error hrun, rfl, rfl⟩

/-- When the second move throws, the call ends in the handler. -/
theorem call_misuses {t : State} {object : ℕ} (habsent : t.blocks object = .absent)
    (hpoint : call.points.find? throwsAt = some .tupleMove) (del : D) :
    ∃ w, call.exec throwsAt (some object) (.received del t) = .error .movedFromDeleter w := by
  cases call with
  | construct name => cases (points_default hpoint).2
  | constructWith name =>
    rcases points_custom hpoint with (⟨-, heq⟩ | ⟨-, -, heq⟩) | ⟨h, hmove, htuple, -⟩
    · cases heq
    · cases heq
    · exact takeOwnershipWith_misuses (w := .received del t) habsent h hmove htuple (.root name)
  | reset name => cases (points_default hpoint).2

theorem withRaw_absent (s : State) (kinds : List HandleKind) :
    (s.withRaw kinds).blocks s.created = .absent :=
  Function.update_self ..

theorem owned_withRaw (s : State) (kinds : List HandleKind) (name : HandleName) :
    (s.withRaw kinds).owned name s.created = { s.extended kinds with
      handles := (s.extended kinds).handles.store name
        (.shared (some s.created) (some s.created)) } := by
  have hback : (s.withRaw kinds).withBlock s.created (.fresh s.created) = s.extended kinds := by
    rw [State.withRaw, withBlock_withBlock, State.withBlock]
    apply State.ext
    · rfl
    · rfl
    · rfl
    · exact Function.update_idem ..
    · rfl
  rw [State.owned, hback]
  rfl

/-- A call in which nothing throws is the operation on handles. -/
theorem call_returns (hs : Sound s) (hvalid : (call.toOp kinds).Valid s)
    (hnone : call.points.find? throwsAt = none) (del : D) :
    ∃ w, call.exec throwsAt (some s.created) (.received del (s.withRaw kinds)) = .ok () w ∧
      SharedPtr.exec (call.toOp kinds) s = .ok () w.memory := by
  have hraw (name : HandleName) : constructRaw name kinds s =
      .ok () ((s.withRaw kinds).owned name s.created) := by
    rw [owned_withRaw]
    exact (bind_ok (newObject_apply kinds s)).trans (createHandle_apply name _ _)
  have hpasses (point : FailurePoint) (hmem : point ∈ call.points) : throwsAt point = false :=
    Bool.eq_false_iff.mpr (List.find?_eq_none.mp hnone point hmem)
  cases call with
  | construct name =>
    have hallocation := hpasses .allocation List.mem_cons_self
    exact ⟨_, takeOwnership_returns s.created hallocation (.root name), hraw (.root name)⟩
  | constructWith name =>
    have hallocation := hpasses .allocation (by simp [Call.points])
    have hmove := hpasses .parameterMove (by simp [Call.points])
    have htuple := hpasses .tupleMove (by simp [Call.points])
    obtain ⟨w, hrun, hmemory⟩ := takeOwnershipWith_returns
      (w := World.received del (s.withRaw kinds)) s.created hallocation hmove htuple (.root name)
    exact ⟨w, hrun, hmemory ▸ hraw (.root name)⟩
  | reset name =>
    have hallocation := hpasses .allocation List.mem_cons_self
    obtain ⟨s', hrun, -⟩ := exec_run hs _ hvalid
    have hassign := (bind_ok (hraw .temporary)).symm.trans hrun
    have htake := takeOwnership_returns (w := World.received del (s.withRaw kinds))
      s.created hallocation .temporary
    exact ⟨_, (bind_ok htake).trans (lift_ok hassign), hrun⟩

/-- Every state that a program reaches is sound, also when calls fail. -/
theorem sound_of_reachableThrowing (hreach : ReachableThrowing s) : Sound s := by
  induction hreach with
  | start => exact sound_start
  | step op _ hvalid hexec ih => exact ih.step hvalid hexec
  | @throws D s call kinds throwsAt del point w _ hvalid hexec ih =>
    cases hfirst : call.points.find? throwsAt with
    | none =>
      obtain ⟨w', hrun, -⟩ := call_returns ih hvalid hfirst del
      cases hexec.symm.trans hrun
    | some first =>
      by_cases htuple : first = .tupleMove
      · subst htuple
        obtain ⟨w', hrun⟩ := call_misuses (withRaw_absent s kinds) hfirst del
        cases hexec.symm.trans hrun
      · obtain ⟨w', hrun, hmemory, -⟩ := call_throws (withRaw_absent s kinds)
          (deletePtr_withRaw ih.invariant kinds _) hfirst htuple del
        cases hexec.symm.trans hrun
        rw [hmemory]
        exact ih.disposed kinds

/-- A call that fails throws on what was thrown and has run the deleter of the pointer once, and
nothing else, if and only if it was not the move into the block that threw. For a fresh object this
means that everything is as before. -/
theorem throws_disposes_iff (hpoint : call.points.find? throwsAt = some point) (del : D) :
    (∀ t t' object, t.blocks object = .absent →
      deletePtr (release (t.created + 1)) (some object) t = .ok () t' →
      ((∃ w, call.exec throwsAt (some object) (.received del t) = .error (.thrown point) w ∧
          w.memory = t' ∧ w.calls = [(call.deleter del, some object)]) ↔
        point ≠ .tupleMove)) ∧
    ∀ s, ReachableThrowing s → ∀ kinds,
      ((∃ w, call.exec throwsAt (some s.created) (.received del (s.withRaw kinds)) =
          .error (.thrown point) w ∧ Disposed (call.deleter del) s w) ↔
        point ≠ .tupleMove) := by
  constructor
  · intro t t' object habsent hdelete
    constructor
    · rintro ⟨w, hrun, -⟩ rfl
      obtain ⟨w', hrun'⟩ := call_misuses habsent hpoint del
      cases hrun.symm.trans hrun'
    · intro hne
      exact call_throws habsent hdelete hpoint hne del
  · intro s hreach kinds
    have habsent := withRaw_absent s kinds
    have hinv := (sound_of_reachableThrowing hreach).invariant
    constructor
    · rintro ⟨w, hrun, -⟩ rfl
      obtain ⟨w', hrun'⟩ := call_misuses habsent hpoint del
      cases hrun.symm.trans hrun'
    · intro hne
      obtain ⟨w, hrun, hmemory, hcalls⟩ :=
        call_throws habsent (deletePtr_withRaw hinv kinds _) hpoint hne del
      exact ⟨w, hrun, disposed_of_memory hmemory hcalls⟩

/-- A new handle on a fresh object without handles, when its block cannot be allocated. -/
theorem throws_disposes_iff_allocation :
    (∃ w, (Call.constructWith 0).exec (· = .allocation) (some 0)
        (.received 'd' (State.start.withRaw [])) = .error (.thrown .allocation) w ∧
        Disposed (some 'd') .start w) ↔
      FailurePoint.allocation ≠ .tupleMove :=
  (throws_disposes_iff rfl 'd').2 .start .start []

/-- A new handle on a fresh object without handles, when the move into the block throws: the
deleter that the handler calls has been moved from. -/
theorem handler_breaks_disposal :
    ¬∃ w, (Call.constructWith 0).exec (· = .tupleMove) (some 0)
        (.received 'd' (State.start.withRaw [])) = .error (.thrown .tupleMove) w ∧
      Disposed (some 'd') .start w := by
  rintro ⟨w, hrun, -⟩
  have hpoint : (Call.constructWith 0).points.find? (· = .tupleMove) = some .tupleMove := rfl
  obtain ⟨w', hrun'⟩ := call_misuses (withRaw_absent .start []) hpoint 'd'
  cases hrun.symm.trans hrun'

end Calls

end StudStuff.SharedPtr
