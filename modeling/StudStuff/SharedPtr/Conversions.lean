import StudStuff.SharedPtr.Frames

/-!
# Converting pointers along a class hierarchy

A conversion of a pointer to a base class adds the offset of the base in the derived class. The
converting constructor of `SharedPtr` converts the pointer that it stores. A `WeakPtr` stores no
pointer, so its converting constructors convert nothing, and `Lock` casts `data_ptr()`, a `void *`
to the object as it was managed, to the class of the `WeakPtr`. A static cast from `void *` leaves
the address as it is.

The handles of the memory model name objects, and `home` says at which address an object was
managed. `Follows` is a run of the memory model in which one chain of handles is followed, with
the address that the handle at its end stores. The address that `Lock` returns is the one that the
conversions denote exactly when the offsets along the chain add up to zero (`lockAgrees_iff`).
-/

set_option autoImplicit false
set_option relaxedAutoImplicit false

namespace StudStuff.SharedPtr

open Lib

/-! ### Class hierarchies -/

/-- An address in memory. -/
abbrev Address := BitVec 64

/-- A class hierarchy: which pointers convert, and what the conversion adds to the address. -/
structure Hierarchy (Ty : Type) where
  convertible : Ty → Ty → Bool
  offset : Ty → Ty → Address
  /-- A pointer converts to its own class and stays as it is. -/
  convertible_self : ∀ type, convertible type type = true
  offset_self : ∀ type, offset type type = 0

namespace Hierarchy

variable {Ty : Type} (hierarchy : Hierarchy Ty)

/-- The conversion of a pointer. A null pointer stays null. -/
def convert (type target : Ty) (ptr : Option Address) : Option Address :=
  ptr.map (· + hierarchy.offset type target)

/-- Conversions one after another. -/
def convertAlong (type : Ty) : List Ty → Option Address → Option Address
  | [], ptr => ptr
  | target :: path, ptr => convertAlong target path (hierarchy.convert type target ptr)

/-- The offsets along a chain of conversions, added up. -/
def shift (type : Ty) : List Ty → Address
  | [] => 0
  | target :: path => hierarchy.offset type target + shift target path

/-- Conversions move a pointer by the sum of their offsets. -/
theorem convertAlong_eq_map (type : Ty) (path : List Ty) (ptr : Option Address) :
    hierarchy.convertAlong type path ptr = ptr.map (· + hierarchy.shift type path) := by
  induction path generalizing type ptr with
  | nil => simp [convertAlong, shift]
  | cons target path ih =>
    rw [convertAlong, ih, convert, Option.map_map]
    exact congrArg (fun move ↦ ptr.map move) (funext fun address ↦ BitVec.add_assoc ..)

end Hierarchy

/-! ### Chains of handles -/

/-- A chain of handles on one object: the class it was managed as, the classes it was converted to
since, and the handle at the end, with the pointer that a `SharedPtr` stores. -/
structure Chain (Ty : Type) where
  object : ℕ
  managedAs : Ty
  path : List Ty
  name : HandleName
  ptr : Option Address
  /-- A `Lock` is among the steps. -/
  locked : Bool

namespace Chain

variable {Ty : Type}

/-- The class of the handle at the end. -/
def type (chain : Chain Ty) : Ty := chain.path.getLastD chain.managedAs

/-- The address that the conversions of the chain denote, which they make of the pointer that was
managed. -/
def denoted (hierarchy : Hierarchy Ty) (home : ℕ → Address) (chain : Chain Ty) : Option Address :=
  hierarchy.convertAlong chain.managedAs chain.path (some (home chain.object))

/-- The converting copy constructor of `SharedPtr`, which stores `other.Get()`. -/
def convertingCopy (hierarchy : Hierarchy Ty) (chain : Chain Ty) (name : ℕ) (target : Ty) :
    Chain Ty :=
  { chain with
    path := chain.path ++ [target]
    name := .root name
    ptr := hierarchy.convert chain.type target chain.ptr }

/-- The converting constructors of `WeakPtr`, which store no pointer. -/
def convertingWeak (chain : Chain Ty) (name : ℕ) (target : Ty) : Chain Ty :=
  { chain with
    path := chain.path ++ [target]
    name := .root name
    ptr := none }

/-- `Lock`, which casts `data_ptr()`. -/
def lock (home : ℕ → Address) (chain : Chain Ty) (name : ℕ) (dataPtr : Option ℕ) : Chain Ty :=
  { chain with
    name := .root name
    ptr := dataPtr.map home
    locked := true }

end Chain

/-- A run of the memory model in which a chain of handles is followed. It starts at a `SharedPtr`
of the class that the object is managed as, which stores the managed pointer. Operations that do
not change the handle at the end of the chain may come in between. -/
inductive Follows {Ty : Type} (hierarchy : Hierarchy Ty) (home : ℕ → Address) :
    State → Chain Ty → Prop
  | managed {s : State} {object : ℕ} {name : HandleName} (type : Ty) (hreach : Reachable s)
      (hcell : s.handles.cell name = some (.shared (some object) (some object))) :
      Follows hierarchy home s ⟨object, type, [], name, some (home object), false⟩
  | sharedCopy {s s' : State} {chain : Chain Ty} (name : ℕ) (target : Ty)
      (hfollows : Follows hierarchy home s chain) (hkind : s.kind? chain.name = some .shared)
      (hconvertible : hierarchy.convertible chain.type target = true)
      (hvalid : (Op.copyConstruct name chain.name).Valid s)
      (hexec : exec (.copyConstruct name chain.name) s = .ok () s') :
      Follows hierarchy home s' (chain.convertingCopy hierarchy name target)
  | weakOfShared {s s' : State} {chain : Chain Ty} (name : ℕ) (target : Ty)
      (hfollows : Follows hierarchy home s chain)
      (hconvertible : hierarchy.convertible chain.type target = true)
      (hvalid : (Op.weakConstruct name chain.name).Valid s)
      (hexec : exec (.weakConstruct name chain.name) s = .ok () s') :
      Follows hierarchy home s' (chain.convertingWeak name target)
  | weakCopy {s s' : State} {chain : Chain Ty} (name : ℕ) (target : Ty)
      (hfollows : Follows hierarchy home s chain) (hkind : s.kind? chain.name = some .weak)
      (hconvertible : hierarchy.convertible chain.type target = true)
      (hvalid : (Op.copyConstruct name chain.name).Valid s)
      (hexec : exec (.copyConstruct name chain.name) s = .ok () s') :
      Follows hierarchy home s' (chain.convertingWeak name target)
  | weakMove {s s' : State} {chain : Chain Ty} (name : ℕ) (target : Ty)
      (hfollows : Follows hierarchy home s chain) (hkind : s.kind? chain.name = some .weak)
      (hconvertible : hierarchy.convertible chain.type target = true)
      (hvalid : (Op.moveConstruct name chain.name).Valid s)
      (hexec : exec (.moveConstruct name chain.name) s = .ok () s') :
      Follows hierarchy home s' (chain.convertingWeak name target)
  | lock {s s' : State} {chain : Chain Ty} {block : ℕ} {dataPtr : Option ℕ} (name : ℕ)
      (hfollows : Follows hierarchy home s chain)
      (hvalid : (Op.lock name chain.name).Valid s)
      (hexec : exec (.lock name chain.name) s = .ok () s')
      (hlocked : s'.handles.cell (.root name) = some (.shared (some block) dataPtr)) :
      Follows hierarchy home s' (chain.lock home name dataPtr)
  | other {s s' : State} {chain : Chain Ty} {index : ℕ} (op : Op)
      (hfollows : Follows hierarchy home s chain) (hname : chain.name = .root index)
      (hkept : .root index ∉ op.changes) (hvalid : op.Valid s) (hexec : exec op s = .ok () s') :
      Follows hierarchy home s' chain

/-! ### The invariant of a chain -/

section Invariant

variable {Ty : Type} {hierarchy : Hierarchy Ty} {home : ℕ → Address} {s s' : State}
  {chain : Chain Ty}

/-- The handle at the end of the chain is attached to the object, whatever it was converted to. -/
structure Chain.Attached (s : State) (chain : Chain Ty) : Prop where
  reachable : Reachable s
  cell : s.handles.cell chain.name = some (.shared (some chain.object) (some chain.object)) ∨
    s.handles.cell chain.name = some (.weak (some chain.object))

theorem Chain.Attached.shared (h : chain.Attached s) (hkind : s.kind? chain.name = some .shared) :
    s.handles.cell chain.name = some (.shared (some chain.object) (some chain.object)) := by
  apply h.cell.resolve_right
  intro hweak
  rw [State.kind?, hweak] at hkind
  cases hkind

theorem Chain.Attached.weak (h : chain.Attached s) (hkind : s.kind? chain.name = some .weak) :
    s.handles.cell chain.name = some (.weak (some chain.object)) := by
  apply h.cell.resolve_left
  intro hshared
  rw [State.kind?, hshared] at hkind
  cases hkind

/-- `Lock` on an object that is alive stores the pointer that was managed. -/
theorem Chain.Attached.lock_cell (h : chain.Attached s) {name : ℕ}
    (hvalid : (Op.lock name chain.name).Valid s)
    (hexec : exec (.lock name chain.name) s = .ok () s')
    (halive : (s.objects chain.object).destroyed = 0) :
    s'.handles.cell (.root name) = some (.shared (some chain.object) (some chain.object)) := by
  have hinv := (sound_of_reachable h.reachable).invariant
  have hcell := h.weak hvalid.2
  have hcreated := (hinv.attachable hcell).1
  have hcount : (s.blocks chain.object).useCnt ≠ 0 := by
    intro hzero
    rw [hinv.destroyed _ hcreated, if_pos hzero] at halive
    cases halive
  have hmade := SharedPtr.lock_cell hexec hcell hcount
  rwa [hinv.ptr _ hcreated, if_neg fun hzero ↦ hcount hzero.1] at hmade

/-- `Lock` made a handle that is attached, so the object is alive. -/
theorem Chain.Attached.alive_of_lock (h : chain.Attached s) {name block : ℕ} {dataPtr : Option ℕ}
    (hvalid : (Op.lock name chain.name).Valid s)
    (hexec : exec (.lock name chain.name) s = .ok () s')
    (hlocked : s'.handles.cell (.root name) = some (.shared (some block) dataPtr)) :
    (s.objects chain.object).destroyed = 0 := by
  have hinv := (sound_of_reachable h.reachable).invariant
  have hcell := h.weak hvalid.2
  have husable := hinv.attachable hcell
  rw [hinv.destroyed _ husable.1, if_neg]
  intro hzero
  have hread := readHandle_apply (hinv.standing hcell) hcell
  have hcount : useCount (.weak (some chain.object)) s = .ok (s.blocks chain.object).useCnt s :=
    bind_ok (readBlock_apply husable)
  have hempty : exec (.lock name chain.name) s =
      createHandle (.root name) (.empty .shared) s := by
    refine (bind_ok hread).trans ((bind_ok hcount).trans ?_)
    rw [if_pos hzero]
  rw [hempty, createHandle_apply] at hexec
  cases hexec
  rw [Heap.cell_store, if_pos rfl, Option.some.injEq] at hlocked
  cases hlocked

/-- The handle at the end of a chain is attached to the object. There is one case for each kind of
step. -/
theorem Follows.attached (h : Follows hierarchy home s chain) : chain.Attached s := by
  induction h with
  | managed type hreach hcell => exact ⟨hreach, Or.inl hcell⟩
  | sharedCopy name target _ hkind _ hvalid hexec ih =>
    exact ⟨ih.reachable.step _ hvalid hexec, Or.inl (copyConstruct_cell hexec (ih.shared hkind))⟩
  | weakOfShared name target _ _ hvalid hexec ih =>
    have hcell := ih.shared hvalid.2
    exact ⟨ih.reachable.step _ hvalid hexec, Or.inr (weakConstruct_cell hexec hcell)⟩
  | weakCopy name target _ hkind _ hvalid hexec ih =>
    exact ⟨ih.reachable.step _ hvalid hexec, Or.inr (copyConstruct_cell hexec (ih.weak hkind))⟩
  | weakMove name target _ hkind _ hvalid hexec ih =>
    exact ⟨ih.reachable.step _ hvalid hexec, Or.inr (moveConstruct_cell hexec (ih.weak hkind))⟩
  | lock name _ hvalid hexec hlocked ih =>
    have halive := ih.alive_of_lock hvalid hexec hlocked
    exact ⟨ih.reachable.step _ hvalid hexec, Or.inl (ih.lock_cell hvalid hexec halive)⟩
  | other op _ hname hkept hvalid hexec ih =>
    have hcell := keeps_exec op hkept _ _ _ hexec
    rw [State.cellAt, State.cellAt, ← hname] at hcell
    exact ⟨ih.reachable.step op hvalid hexec, hcell.symm ▸ ih.cell⟩

end Invariant

/-! ### Locking -/

section Lock

variable {Ty : Type} {hierarchy : Hierarchy Ty} {home : ℕ → Address} {s : State}
  {chain : Chain Ty} {name : ℕ}

/-- `Lock` on the `WeakPtr` at the end of a chain returns a `SharedPtr` whose pointer is the one
that the conversions along the chain denote. -/
def LockAgrees (hierarchy : Hierarchy Ty) (home : ℕ → Address) (s : State) (chain : Chain Ty)
    (name : ℕ) : Prop :=
  ∃ s' block dataPtr, exec (.lock name chain.name) s = .ok () s' ∧
    s'.handles.cell (.root name) = some (.shared (some block) dataPtr) ∧
      (chain.lock home name dataPtr).ptr = chain.denoted hierarchy home

/-- `Lock` on an object that is alive returns the address at which the object was managed. -/
theorem lockAgrees_iff_home (hfollows : Follows hierarchy home s chain)
    (halive : (s.objects chain.object).destroyed = 0) (hvalid : (Op.lock name chain.name).Valid s) :
    LockAgrees hierarchy home s chain name ↔
      some (home chain.object) = chain.denoted hierarchy home := by
  have hattached := hfollows.attached
  constructor
  · rintro ⟨s', block, dataPtr, hexec, hcell, hagrees⟩
    have hlocked := hattached.lock_cell hvalid hexec halive
    rw [hcell, Option.some.injEq, Handle.shared.injEq] at hlocked
    rw [hlocked.2] at hagrees
    exact hagrees
  · intro hhome
    obtain ⟨s', hexec, -⟩ := exec_run (sound_of_reachable hattached.reachable) _ hvalid
    exact ⟨s', chain.object, _, hexec, hattached.lock_cell hvalid hexec halive, hhome⟩

/-- `Lock` on an object that is alive returns the address that the conversions denote exactly when
their offsets add up to zero. -/
theorem lockAgrees_iff (hfollows : Follows hierarchy home s chain)
    (halive : (s.objects chain.object).destroyed = 0) (hvalid : (Op.lock name chain.name).Valid s) :
    LockAgrees hierarchy home s chain name ↔
      hierarchy.shift chain.managedAs chain.path = 0 := by
  have hdenoted : chain.denoted hierarchy home =
      some (home chain.object + hierarchy.shift chain.managedAs chain.path) :=
    hierarchy.convertAlong_eq_map ..
  rw [lockAgrees_iff_home hfollows halive hvalid, hdenoted, Option.some.injEq]
  exact BitVec.self_eq_add_right

/-- A class with two bases, and the bases. -/
inductive TwoBases
  | derived
  | first
  | second
  deriving DecidableEq, Repr

/-- The first base is at the start of the object, and the second one behind it. -/
def twoBases : Hierarchy TwoBases where
  convertible type target := type = target ∨ type = .derived
  offset type target := if type = .derived ∧ target = .second then 8 else 0
  convertible_self type := by simp
  offset_self type := by cases type <;> rfl

/-- A run of one operation. -/
theorem exec_of_run {op : Op} {s' : State} (hrun : run [op] s = some s') :
    op.Valid s ∧ exec op s = .ok () s' := by
  rw [run] at hrun
  split_ifs at hrun with hvalid
  refine ⟨hvalid, ?_⟩
  cases hexec : exec op s with
  | ok value s₁ =>
    rw [hexec] at hrun
    cases hrun
    rfl
  | error reason s₁ =>
    rw [hexec] at hrun
    cases hrun

/-- An object that is observed as one of its bases. -/
theorem exists_observed (base : TwoBases) (home : ℕ → Address) :
    ∃ s ∈ run [.constructRaw 0 [], .weakConstruct 1 (.root 0)] .start,
      Follows twoBases home s ⟨0, .derived, [base], .root 1, none, false⟩ ∧
        (s.objects 0).destroyed = 0 ∧ (Op.lock 2 (.root 1)).Valid s := by
  obtain ⟨s₁, hrun₁, hcell, s, hrun, halive, hvalid⟩ : ∃ s₁ ∈ run [.constructRaw 0 []] .start,
      s₁.handles.cell (.root 0) = some (.shared (some 0) (some 0)) ∧
        ∃ s ∈ run [.weakConstruct 1 (.root 0)] s₁,
          (s.objects 0).destroyed = 0 ∧ (Op.lock 2 (.root 1)).Valid s := by
    decide +kernel
  obtain ⟨hvalid₁, hexec₁⟩ := exec_of_run hrun₁
  obtain ⟨hvalid₂, hexec₂⟩ := exec_of_run hrun
  have hmanaged : Follows twoBases home s₁ ⟨0, .derived, [], .root 0, some (home 0), false⟩ :=
    .managed TwoBases.derived (.of_run .start hrun₁) hcell
  exact ⟨s, (run_cons hvalid₁ hexec₁).trans hrun,
    .weakOfShared 1 base hmanaged (by cases base <;> rfl) hvalid₂ hexec₂, halive, hvalid⟩

/-- A `WeakPtr` to the first base of an object. -/
theorem lockAgrees_iff_first :
    ∃ s ∈ run [.constructRaw 0 [], .weakConstruct 1 (.root 0)] .start,
      (LockAgrees twoBases (fun _ ↦ 4096) s ⟨0, .derived, [.first], .root 1, none, false⟩ 2 ↔
        twoBases.shift .derived [.first] = 0) ∧ twoBases.shift .derived [.first] = 0 := by
  obtain ⟨s, hrun, hfollows, halive, hvalid⟩ := exists_observed .first fun _ ↦ 4096
  exact ⟨s, hrun, lockAgrees_iff hfollows halive hvalid, by decide⟩

/-- A `WeakPtr` to the second base of an object. `Lock` returns the address of the object. -/
theorem lock_misses_offset :
    ∃ s ∈ run [.constructRaw 0 [], .weakConstruct 1 (.root 0)] .start,
      Follows twoBases (fun _ ↦ 4096) s ⟨0, .derived, [.second], .root 1, none, false⟩ ∧
        (s.objects 0).destroyed = 0 ∧ (Op.lock 2 (.root 1)).Valid s ∧
          ¬LockAgrees twoBases (fun _ ↦ 4096) s ⟨0, .derived, [.second], .root 1, none, false⟩
            2 := by
  obtain ⟨s, hrun, hfollows, halive, hvalid⟩ := exists_observed .second fun _ ↦ 4096
  refine ⟨s, hrun, hfollows, halive, hvalid, ?_⟩
  rw [lockAgrees_iff_home hfollows halive hvalid]
  decide

end Lock

end StudStuff.SharedPtr
