import StudStuff.SharedPtr.Safety

/-!
# What an operation leaves as it is

The variables that an operation assigns are those it names (`Op.changes`). Every other variable
keeps its fields, whatever the deleters that the operation sets off destroy, since a deleter
reaches only the fields of managed objects. A constructor leaves in the new handle what it copied.
-/

set_option autoImplicit false
set_option relaxedAutoImplicit false

namespace StudStuff.SharedPtr

open Lib

variable {s s' : State} {name source : HandleName} {handle : Handle}

/-- The fields of one handle, if it lives. -/
def State.cellAt (name : HandleName) (s : State) : Option Handle := s.handles.cell name

/-! ### Control blocks -/

section Blocks

theorem keeps_readHandle (source : HandleName) : Keeps (State.cellAt name) (readHandle source) := by
  intro s value s' hrun
  unfold readHandle at hrun
  split at hrun
  · cases hrun
    rfl
  · cases hrun

theorem keeps_readBlock (block : ℕ) : Keeps (State.cellAt name) (readBlock block) := by
  intro s value s' hrun
  unfold readBlock at hrun
  split_ifs at hrun
  cases hrun
  rfl

theorem keeps_modifyBlock (block : ℕ) (change : Block → Block) :
    Keeps (State.cellAt name) (modifyBlock block change) := by
  intro s value s' hrun
  unfold modifyBlock at hrun
  split_ifs at hrun
  cases hrun
  rfl

theorem keeps_noteUnderflow (count : ℕ) : Keeps (State.cellAt name) (noteUnderflow count) :=
  .ite (.modify fun _ ↦ rfl) .pure

theorem keeps_releaseWeak (block : ℕ) : Keeps (State.cellAt name) (releaseWeak block) := by
  refine .bind (keeps_readBlock block) fun cb ↦ .bind (keeps_noteUnderflow _) fun _ ↦
    .bind (keeps_modifyBlock block _) fun _ ↦ .bind (keeps_readBlock block) fun cb ↦ ?_
  exact .ite (keeps_modifyBlock block _) .pure

/-- `AddRef` and `AddWeak` change no handle. -/
theorem keeps_addCb (handle : Handle) : Keeps (State.cellAt name) (addCb handle) := by
  rcases handle with ⟨_ | block, ptr⟩ | ⟨_ | block⟩
  · exact .pure
  · exact keeps_modifyBlock block fun cb ↦ { cb with useCnt := cb.useCnt + 1 }
  · exact .pure
  · exact keeps_modifyBlock block fun cb ↦ { cb with weakCnt := cb.weakCnt + 1 }

end Blocks

/-! ### Releases -/

section Releases

variable {releaser : ℕ → PtrM Unit} {index : ℕ}

theorem keeps_releaseCb (hreleaser : ∀ block, Keeps (State.cellAt name) (releaser block))
    (handle : Handle) : Keeps (State.cellAt name) (releaseCb releaser handle) := by
  rcases handle with ⟨_ | block, ptr⟩ | ⟨_ | block⟩
  · exact .pure
  · exact hreleaser block
  · exact .pure
  · exact keeps_releaseWeak block

theorem keeps_takeHandle {other : HandleName} (hother : name ≠ other) :
    Keeps (State.cellAt name) (takeHandle other) := by
  intro s value s' hrun
  unfold takeHandle at hrun
  split at hrun
  · cases hrun
    exact if_neg hother
  · cases hrun

theorem keeps_destroyHandle (hreleaser : ∀ block, Keeps (State.cellAt name) (releaser block))
    {other : HandleName} (hother : name ≠ other) :
    Keeps (State.cellAt name) (destroyHandle releaser other) :=
  .bind (keeps_takeHandle hother) fun handle ↦ keeps_releaseCb hreleaser handle

/-- A deleter destroys fields, and no variable. -/
theorem keeps_destroyFields
    (hreleaser : ∀ block, Keeps (State.cellAt (.root index)) (releaser block)) (object count : ℕ) :
    Keeps (State.cellAt (.root index)) (destroyFields releaser object count) := by
  induction count with
  | zero => exact .pure
  | succ count ih => exact .bind (keeps_destroyHandle hreleaser (by simp)) fun _ ↦ ih

theorem keeps_deletePtr
    (hreleaser : ∀ block, Keeps (State.cellAt (.root index)) (releaser block)) (ptr : Option ℕ) :
    Keeps (State.cellAt (.root index)) (deletePtr releaser ptr) := by
  cases ptr with
  | none => exact .pure
  | some object =>
    have hread : Keeps (State.cellAt (.root index)) (readObject object) := by
      intro s value s' hrun
      cases hrun
      rfl
    refine .bind hread fun target ↦ .ite ?_ .throw
    exact .bind (.modify fun _ ↦ rfl) fun _ ↦ keeps_destroyFields hreleaser object _

/-- `Release` destroys no variable. The induction is on the nesting of deleters. -/
theorem keeps_release (bound block : ℕ) :
    Keeps (State.cellAt (.root index)) (release bound block) := by
  induction bound generalizing block with
  | zero => exact .throw
  | succ bound ih =>
    refine .bind (keeps_readBlock block) fun cb ↦ .bind (keeps_noteUnderflow _) fun _ ↦
      .bind (keeps_modifyBlock block _) fun _ ↦ .bind (keeps_readBlock block) fun cb ↦
        .ite ?_ .pure
    have hdestroy : Keeps (State.cellAt (.root index)) (destroyObject (release bound) block) :=
      .bind (keeps_readBlock block) fun cb ↦ .bind (keeps_deletePtr ih cb.ptr) fun _ ↦
        keeps_modifyBlock block _
    refine .bind (keeps_modifyBlock block _) fun _ ↦ .bind hdestroy fun _ ↦
      .bind (keeps_modifyBlock block _) fun _ ↦ .bind (keeps_readBlock block) fun cb ↦ ?_
    exact .ite (keeps_modifyBlock block _) .pure

end Releases

/-! ### Operations -/

section Operations

variable {index : ℕ}

theorem keeps_modifyHandle {other : HandleName} (hother : name ≠ other)
    (change : Handle → Handle) : Keeps (State.cellAt name) (modifyHandle other change) := by
  intro s value s' hrun
  unfold modifyHandle at hrun
  split at hrun
  · cases hrun
    exact if_neg hother
  · cases hrun

theorem keeps_createHandle {other : HandleName} (hother : name ≠ other) (handle : Handle) :
    Keeps (State.cellAt name) (createHandle other handle) :=
  .modify fun _ ↦ if_neg hother

theorem keeps_constructRaw {other : HandleName} (hother : .root index ≠ other)
    (kinds : List HandleKind) :
    Keeps (State.cellAt (.root index)) (constructRaw other kinds) := by
  refine .bind (fun s value s' hrun ↦ ?_) fun object ↦ keeps_createHandle hother _
  cases hrun
  exact Option.none_or

theorem keeps_copyConstruct {other : HandleName} (hother : name ≠ other) (source : HandleName) :
    Keeps (State.cellAt name) (copyConstruct other source) :=
  .bind (keeps_readHandle source) fun handle ↦ .bind (keeps_createHandle hother handle) fun _ ↦
    keeps_addCb handle

theorem keeps_moveConstruct {other : HandleName} (hother : name ≠ other) (hsource : name ≠ source) :
    Keeps (State.cellAt name) (moveConstruct other source) :=
  .bind (keeps_readHandle source) fun handle ↦ .bind (keeps_modifyHandle hsource _) fun _ ↦
    keeps_createHandle hother handle

theorem keeps_weakConstruct {other : HandleName} (hother : name ≠ other) (source : HandleName) :
    Keeps (State.cellAt name) (weakConstruct other source) := by
  refine .bind (keeps_readHandle source) fun handle ↦ ?_
  cases handle with
  | shared cb ptr => exact .bind (keeps_createHandle hother _) fun _ ↦ keeps_addCb _
  | weak cb => exact .throw

theorem keeps_useCount (handle : Handle) : Keeps (State.cellAt name) (useCount handle) := by
  rcases handle with ⟨_ | block, ptr⟩ | ⟨_ | block⟩
  · exact .pure
  · exact .bind (keeps_readBlock block) fun cb ↦ .pure
  · exact .pure
  · exact .bind (keeps_readBlock block) fun cb ↦ .pure

theorem keeps_lock {other : HandleName} (hother : name ≠ other) (source : HandleName) :
    Keeps (State.cellAt name) (lock other source) := by
  refine .bind (keeps_readHandle source) fun handle ↦ .bind (keeps_useCount handle) fun count ↦
    .ite (keeps_createHandle hother _) ?_
  rcases handle with ⟨cb, ptr⟩ | ⟨_ | block⟩
  · exact .throw
  · exact .throw
  · exact .bind (keeps_readBlock block) fun cb ↦ .bind (keeps_createHandle hother _) fun _ ↦
      keeps_modifyBlock block _

theorem keeps_swap {first second : HandleName} (hfirst : name ≠ first) (hsecond : name ≠ second) :
    Keeps (State.cellAt name) (swap first second) :=
  .bind (keeps_readHandle first) fun _ ↦ .bind (keeps_readHandle second) fun _ ↦
    .bind (keeps_modifyHandle hfirst _) fun _ ↦ keeps_modifyHandle hsecond _

theorem keeps_fuel : Keeps (State.cellAt name) fuel :=
  .bind .get fun _ ↦ .pure

theorem keeps_destroy {other : HandleName} (hother : .root index ≠ other) :
    Keeps (State.cellAt (.root index)) (destroy other) :=
  .bind keeps_fuel fun bound ↦ keeps_destroyHandle (keeps_release bound) hother

theorem keeps_assignTemporary {other : HandleName} (hother : .root index ≠ other) :
    Keeps (State.cellAt (.root index)) (assignTemporary other) :=
  .bind (keeps_swap hother (by simp)) fun _ ↦ keeps_destroy (by simp)

theorem keeps_reset {other : HandleName} (hother : .root index ≠ other) :
    Keeps (State.cellAt (.root index)) (reset other) :=
  .bind (keeps_readHandle other) fun handle ↦ .bind keeps_fuel fun bound ↦
    .bind (keeps_releaseCb (keeps_release bound) handle) fun _ ↦
      .bind (keeps_modifyHandle hother _) fun _ ↦ keeps_modifyHandle hother _

/-- The handles that an operation makes, assigns, moves from or destroys. -/
def Op.changes : Op → List HandleName
  | .constructEmpty name _ | .constructRaw name _ | .copyConstruct name _ | .weakConstruct name _
  | .lock name _ | .destroy name => [.root name]
  | .moveConstruct name source => [.root name, source]
  | .copyAssign name _ | .weakAssign name _ | .emptyAssign name | .resetTo name _
  | .reset name => [name]
  | .moveAssign name source | .swap name source => [name, source]

/-- A variable that an operation does not change keeps its fields. -/
theorem keeps_exec (op : Op) (hkept : .root index ∉ op.changes) :
    Keeps (State.cellAt (.root index)) (exec op) := by
  cases op with
  | constructEmpty name kind => exact keeps_createHandle (by simpa [Op.changes] using hkept) _
  | constructRaw name kinds => exact keeps_constructRaw (by simpa [Op.changes] using hkept) kinds
  | copyConstruct name source =>
    exact keeps_copyConstruct (by simpa [Op.changes] using hkept) source
  | moveConstruct name source =>
    rw [Op.changes, List.mem_pair, not_or] at hkept
    exact keeps_moveConstruct hkept.1 hkept.2
  | weakConstruct name source =>
    exact keeps_weakConstruct (by simpa [Op.changes] using hkept) source
  | lock name source => exact keeps_lock (by simpa [Op.changes] using hkept) source
  | copyAssign name source =>
    exact .bind (keeps_copyConstruct (by simp) source) fun _ ↦
      keeps_assignTemporary (by simpa [Op.changes] using hkept)
  | moveAssign name source =>
    rw [Op.changes, List.mem_pair, not_or] at hkept
    exact .bind (keeps_moveConstruct (by simp) hkept.2) fun _ ↦ keeps_assignTemporary hkept.1
  | weakAssign name source =>
    exact .bind (keeps_weakConstruct (by simp) source) fun _ ↦
      keeps_assignTemporary (by simpa [Op.changes] using hkept)
  | emptyAssign name =>
    exact .bind (keeps_readHandle name) fun _ ↦ .bind (keeps_createHandle (by simp) _) fun _ ↦
      keeps_assignTemporary (by simpa [Op.changes] using hkept)
  | resetTo name kinds =>
    exact .bind (keeps_constructRaw (by simp) kinds) fun _ ↦
      keeps_assignTemporary (by simpa [Op.changes] using hkept)
  | swap first second =>
    rw [Op.changes, List.mem_pair, not_or] at hkept
    exact keeps_swap hkept.1 hkept.2
  | reset name => exact keeps_reset (by simpa [Op.changes] using hkept)
  | destroy name => exact keeps_destroy (by simpa [Op.changes] using hkept)

end Operations

/-! ### New handles -/

section Made

/-- A program that reads a handle first goes on with what the handle holds. -/
theorem of_readHandle {next : Handle → PtrM Unit}
    (hrun : (readHandle source >>= next) s = .ok () s')
    (hsource : s.handles.cell source = some handle) : next handle s = .ok () s' := by
  obtain ⟨handle', s₁, hread, hrest⟩ := exists_of_bind_ok hrun
  unfold readHandle at hread
  split at hread
  case h_1 _ value _ hcell =>
    cases hread
    rw [hsource, Option.some.injEq] at hcell
    exact hcell ▸ hrest
  case h_2 => cases hread

/-- A handle that was made, and whose reference was then counted. -/
theorem attach_cell (hrun : (do createHandle name handle
                                addCb handle : PtrM Unit) s = .ok () s') :
    s'.handles.cell name = some handle := by
  obtain ⟨_, s₁, hcreate, hadd⟩ := exists_of_bind_ok hrun
  cases hcreate
  exact (keeps_addCb handle _ _ _ hadd).trans (if_pos rfl)

/-- A copy holds what its source holds. -/
theorem copyConstruct_cell (hrun : copyConstruct name source s = .ok () s')
    (hsource : s.handles.cell source = some handle) : s'.handles.cell name = some handle :=
  attach_cell (of_readHandle hrun hsource)

/-- A handle that is moved into holds what its source held. -/
theorem moveConstruct_cell (hrun : moveConstruct name source s = .ok () s')
    (hsource : s.handles.cell source = some handle) : s'.handles.cell name = some handle := by
  obtain ⟨_, s₂, -, hcreate⟩ := exists_of_bind_ok (of_readHandle hrun hsource)
  cases hcreate
  exact if_pos rfl

/-- A `WeakPtr` made from a `SharedPtr` is attached to the same control block. -/
theorem weakConstruct_cell {cb ptr : Option ℕ} (hrun : weakConstruct name source s = .ok () s')
    (hsource : s.handles.cell source = some (.shared cb ptr)) :
    s'.handles.cell name = some (.weak cb) :=
  attach_cell (of_readHandle hrun hsource)

/-- `Lock` stores the pointer of the control block when a `SharedPtr` is left. -/
theorem lock_cell {block : ℕ} (hrun : lock name source s = .ok () s')
    (hsource : s.handles.cell source = some (.weak (some block)))
    (hcount : (s.blocks block).useCnt ≠ 0) :
    s'.handles.cell name = some (.shared (some block) (s.blocks block).ptr) := by
  obtain ⟨count, s₂, huse, hrest⟩ := exists_of_bind_ok (of_readHandle hrun hsource)
  obtain ⟨cb, s₃, hblock, hvalue⟩ := exists_of_bind_ok huse
  cases hvalue
  unfold readBlock at hblock
  split_ifs at hblock with husable
  cases hblock
  rw [if_neg hcount] at hrest
  exact attach_cell ((bind_ok (readBlock_apply husable)).symm.trans hrest)

end Made

end StudStuff.SharedPtr
