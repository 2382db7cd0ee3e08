import StudStuff.SharedPtr.Release

/-!
# Releases do not look at other handles

A release reads a handle only to destroy it. `Blind name program` says that a program runs alike
in two states that differ in what one handle holds, until the object that contains the handle is
destroyed. `release_blind` proves it of `Release` in the middle of any releases. This is what
compares `Reset()`, which releases while the handle still is attached, with an assignment, which
clears the handle first.
-/

set_option autoImplicit false
set_option relaxedAutoImplicit false

namespace StudStuff.SharedPtr

open Lib

variable {name : HandleName} {s t : State} {α β : Type}

/-! ### Blind programs -/

/-- Two states that differ in what one handle holds, while its object is not destroyed. -/
structure Alike (name : HandleName) (s t : State) : Prop where
  cell : ∀ other ≠ name, s.handles.cell other = t.handles.cell other
  live : ∃ handle handle', s.handles.cell name = some handle ∧
    t.handles.cell name = some handle' ∧ handle.kind = handle'.kind
  created : s.created = t.created
  objects : s.objects = t.objects
  blocks : s.blocks = t.blocks
  underflowed : s.underflowed = t.underflowed
  standing : s.standing name = true

/-- The object that contains a handle was destroyed. -/
def Fallen (name : HandleName) (s : State) : Prop := s.standing name = false

/-- The state in which a program ended. -/
def finalState : EStateM.Result Fault State α → State
  | .ok _ s => s
  | .error _ s => s

/-- Two runs end alike, or stop with the same fault, or the object that contains the handle was
destroyed in both. -/
def Parallel (name : HandleName) (first second : EStateM.Result Fault State α) : Prop :=
  (∃ value s t, first = .ok value s ∧ second = .ok value t ∧ Alike name s t) ∨
    (∃ reason s t, first = .error reason s ∧ second = .error reason t) ∨
      (Fallen name (finalState first) ∧ Fallen name (finalState second))

/-- A program after which a destroyed object still is destroyed. -/
def Stays (name : HandleName) (program : PtrM α) : Prop :=
  ∀ s, Fallen name s → Fallen name (finalState (program s))

/-- A program that runs alike in states that differ in one handle only. -/
structure Blind (name : HandleName) (program : PtrM α) : Prop where
  parallel : ∀ s t, Alike name s t → Parallel name (program s) (program t)
  stays : Stays name program

section Control

theorem Parallel.of_ok {first second : EStateM.Result Fault State α} {value : α} {s t : State}
    (hfirst : first = .ok value s) (hsecond : second = .ok value t) (h : Alike name s t) :
    Parallel name first second :=
  Or.inl ⟨value, s, t, hfirst, hsecond, h⟩

theorem Blind.pure (name : HandleName) (value : α) : Blind name (pure value : PtrM α) :=
  ⟨fun s t h ↦ .of_ok (pure_apply value s) (pure_apply value t) h, fun _ h ↦ h⟩

theorem Blind.throw (name : HandleName) (reason : Fault) : Blind name (throw reason : PtrM α) :=
  ⟨fun s t _ ↦ Or.inr (Or.inl ⟨reason, s, t, rfl, rfl⟩), fun _ h ↦ h⟩

theorem Stays.bind {program : PtrM α} {next : α → PtrM β} (h : Stays name program)
    (hnext : ∀ value, Stays name (next value)) : Stays name (program >>= next) := by
  intro s hs
  have hprogram := h s hs
  cases hrun : program s with
  | ok value s' =>
    rw [hrun] at hprogram
    rw [bind_ok hrun]
    exact hnext value s' hprogram
  | error reason s' =>
    rw [hrun] at hprogram
    rw [bind_error hrun]
    exact hprogram

/-- A program that destroys no object. -/
theorem Stays.of_objects {program : PtrM α}
    (h : ∀ s, (finalState (program s)).objects = s.objects) : Stays name program := by
  intro s hs
  cases name with
  | root index => cases hs
  | temporary => cases hs
  | field object index =>
    change decide (((finalState (program s)).objects object).destroyed = 0) = false
    rw [h]
    exact hs

theorem Blind.bind {program : PtrM α} {next : α → PtrM β} (h : Blind name program)
    (hnext : ∀ value, Blind name (next value)) : Blind name (program >>= next) := by
  have hstays : Stays name (program >>= next) := h.stays.bind fun value ↦ (hnext value).stays
  refine ⟨fun s t hst ↦ ?_, hstays⟩
  have hfallen (u : State) (hu : Fallen name (finalState (program u))) :
      Fallen name (finalState ((program >>= next) u)) := by
    cases hrun : program u with
    | ok value u' =>
      rw [hrun] at hu
      rw [bind_ok hrun]
      exact (hnext value).stays u' hu
    | error reason u' =>
      rw [hrun] at hu
      rw [bind_error hrun]
      exact hu
  rcases h.parallel s t hst with ⟨value, s', t', hs, ht, hst'⟩ | ⟨reason, s', t', hs, ht⟩ | ⟨hs, ht⟩
  · rw [bind_ok hs, bind_ok ht]
    exact (hnext value).parallel s' t' hst'
  · exact Or.inr (Or.inl ⟨reason, s', t', bind_error hs, bind_error ht⟩)
  · exact Or.inr (Or.inr ⟨hfallen s hs, hfallen t ht⟩)

/-- A program that depends on what states that differ in one handle have in common, and changes
only that. -/
theorem Blind.of_common {program : PtrM α}
    (h : ∀ s, (∃ value s', program s = .ok value s' ∧ s'.objects = s.objects ∧
      ∀ t, Alike name s t → ∃ t', program t = .ok value t' ∧ Alike name s' t') ∨
        ∃ reason, program s = .error reason s ∧
          ∀ t, Alike name s t → program t = .error reason t) : Blind name program := by
  refine ⟨fun s t hst ↦ ?_, .of_objects fun s ↦ ?_⟩
  · rcases h s with ⟨value, s', hs, -, ht⟩ | ⟨reason, hs, ht⟩
    · obtain ⟨t', ht', hst'⟩ := ht t hst
      exact .of_ok hs ht' hst'
    · exact Or.inr (Or.inl ⟨reason, s, t, hs, ht t hst⟩)
  · rcases h s with ⟨value, s', hrun, hobjects, -⟩ | ⟨reason, hrun, -⟩
    · rw [hrun]
      exact hobjects
    · rw [hrun]
      rfl

end Control

/-! ### Blocks and weak references -/

section Blocks

theorem Blind.readBlock (name : HandleName) (block : ℕ) : Blind name (readBlock block) := by
  refine .of_common fun s ↦ ?_
  by_cases husable : block < s.created ∧ (s.blocks block).freed = 0
  · refine Or.inl ⟨_, s, readBlock_apply husable, rfl, fun t hst ↦ ⟨t, ?_, hst⟩⟩
    rw [hst.created, hst.blocks] at husable
    rw [readBlock_apply husable, hst.blocks]
  · refine Or.inr ⟨.badAccess, if_neg husable, fun t hst ↦ ?_⟩
    rw [hst.created, hst.blocks] at husable
    exact if_neg husable

theorem Blind.modifyBlock (name : HandleName) (block : ℕ) (change : Block → Block) :
    Blind name (modifyBlock block change) := by
  refine .of_common fun s ↦ ?_
  by_cases husable : block < s.created ∧ (s.blocks block).freed = 0
  · refine Or.inl ⟨_, _, modifyBlock_apply husable change, rfl, fun t hst ↦ ?_⟩
    rw [hst.created, hst.blocks] at husable
    refine ⟨_, modifyBlock_apply husable change, ⟨hst.cell, hst.live, hst.created, hst.objects, ?_,
      hst.underflowed, hst.standing⟩⟩
    change Function.update s.blocks block _ = Function.update t.blocks block _
    rw [hst.blocks]
  · refine Or.inr ⟨.badAccess, if_neg husable, fun t hst ↦ ?_⟩
    rw [hst.created, hst.blocks] at husable
    exact if_neg husable

theorem Blind.noteUnderflow (name : HandleName) (count : ℕ) : Blind name (noteUnderflow count) := by
  unfold SharedPtr.noteUnderflow
  by_cases hcount : count = 0
  · rw [if_pos hcount]
    exact .of_common fun s ↦ Or.inl ⟨(), _, rfl, rfl, fun t hst ↦ ⟨_, rfl,
      ⟨hst.cell, hst.live, hst.created, hst.objects, hst.blocks, rfl, hst.standing⟩⟩⟩
  · rw [if_neg hcount]
    exact .pure name ()

theorem Blind.destroyBlock (name : HandleName) (block : ℕ) : Blind name (destroyBlock block) :=
  .modifyBlock name block _

theorem Blind.releaseWeak (name : HandleName) (block : ℕ) : Blind name (releaseWeak block) := by
  unfold SharedPtr.releaseWeak
  refine .bind (.readBlock name block) fun cb ↦ .bind (.noteUnderflow name _) fun _ ↦
    .bind (.modifyBlock name block _) fun _ ↦ .bind (.readBlock name block) fun cb ↦ ?_
  split_ifs
  · exact .destroyBlock name block
  · exact .pure name ()

end Blocks

/-! ### Destructors and releases -/

section Nested

variable {releaser : ℕ → PtrM Unit}

theorem Blind.releaseCb (hreleaser : ∀ block, Blind name (releaser block)) (handle : Handle) :
    Blind name (releaseCb releaser handle) := by
  rcases handle with ⟨_ | block, ptr⟩ | ⟨_ | block⟩
  · exact .pure name ()
  · exact hreleaser block
  · exact .pure name ()
  · exact .releaseWeak name block

/-- Ending the lifetime of another handle. -/
theorem Blind.takeHandle {other : HandleName} (hother : other ≠ name) :
    Blind name (takeHandle other) := by
  refine .of_common fun s ↦ ?_
  cases hcell : s.handles.cell other with
  | some handle =>
    refine Or.inl ⟨handle, _, takeHandle_apply hcell, rfl, fun t hst ↦ ?_⟩
    rw [hst.cell other hother] at hcell
    refine ⟨_, takeHandle_apply hcell, ⟨fun third hthird ↦ ?_, ?_, hst.created, hst.objects,
      hst.blocks, hst.underflowed, hst.standing⟩⟩
    · rw [Heap.cell_release, Heap.cell_release, hst.cell third hthird]
    · rw [Heap.cell_release, Heap.cell_release, if_neg hother.symm, if_neg hother.symm]
      exact hst.live
  | none =>
    refine Or.inr ⟨.badAccess, by rw [SharedPtr.takeHandle, hcell], fun t hst ↦ ?_⟩
    rw [hst.cell other hother] at hcell
    rw [SharedPtr.takeHandle, hcell]

theorem Blind.destroyHandle (hreleaser : ∀ block, Blind name (releaser block))
    {other : HandleName} (hother : other ≠ name) : Blind name (destroyHandle releaser other) :=
  .bind (.takeHandle hother) fun handle ↦ .releaseCb hreleaser handle

/-- Destroying the fields of an object that does not contain the handle. -/
theorem Blind.destroyFields (hreleaser : ∀ block, Blind name (releaser block)) {object : ℕ}
    (hobject : ∀ index, name ≠ .field object index) (count : ℕ) :
    Blind name (destroyFields releaser object count) := by
  induction count with
  | zero => exact .pure name ()
  | succ count ih =>
    exact .bind (.destroyHandle hreleaser (hobject count).symm) fun _ ↦ ih

theorem Stays.takeHandle (other : HandleName) : Stays name (takeHandle other) := by
  refine .of_objects fun s ↦ ?_
  cases hcell : s.handles.cell other with
  | some handle =>
    rw [takeHandle_apply hcell]
    rfl
  | none =>
    rw [SharedPtr.takeHandle, hcell]
    rfl

/-- The destructor of the object that contains the handle leaves it destroyed. -/
theorem Stays.destroyFields (hreleaser : ∀ block, Blind name (releaser block)) (object count : ℕ) :
    Stays name (destroyFields releaser object count) := by
  induction count with
  | zero => exact (Blind.pure name ()).stays
  | succ count ih =>
    exact .bind (.bind (.takeHandle _) fun handle ↦ (Blind.releaseCb hreleaser handle).stays)
      fun _ ↦ ih

theorem Stays.markDestroyed (object : ℕ) : Stays name (markDestroyed object) := by
  intro s hs
  cases name with
  | root index => cases hs
  | temporary => cases hs
  | field other index =>
    have hother : ¬(s.objects other).destroyed = 0 := of_decide_eq_false hs
    refine decide_eq_false ?_
    change ¬((s.marked object).objects other).destroyed = 0
    by_cases hsame : other = object
    · rw [hsame, objects_marked_self]
      exact Nat.succ_ne_zero _
    · rw [objects_marked_of_ne s hsame]
      exact hother

/-- The deleter on an object, which may be the one that contains the handle. -/
theorem Blind.deleteObject (hreleaser : ∀ block, Blind name (releaser block)) (object : ℕ) :
    Blind name (deleteObject releaser object) := by
  have hmark (count : ℕ) : Stays name (do
      SharedPtr.markDestroyed object
      SharedPtr.destroyFields releaser object count) :=
    .bind (.markDestroyed object) fun _ ↦ .destroyFields hreleaser object count
  have hread : Blind name (readObject object) := .of_common fun s ↦
    Or.inl ⟨_, s, rfl, rfl, fun t hst ↦ ⟨t, by rw [readObject_apply, hst.objects], hst⟩⟩
  refine .bind hread fun target ↦ ?_
  by_cases halive : target.destroyed = 0
  · rw [if_pos halive]
    refine ⟨fun s t hst ↦ ?_, hmark target.fieldCount⟩
    by_cases hobject : ∀ index, name ≠ .field object index
    · have hrest := Blind.destroyFields hreleaser hobject target.fieldCount
      rw [bind_ok (markDestroyed_apply object s), bind_ok (markDestroyed_apply object t)]
      refine hrest.parallel _ _ ⟨hst.cell, hst.live, hst.created, ?_, hst.blocks, hst.underflowed,
        ?_⟩
      · rw [State.marked, State.marked, hst.objects]
      · cases name with
        | root index => rfl
        | temporary => rfl
        | field other index =>
          have hother : other ≠ object := fun heq ↦ hobject index (by rw [heq])
          change decide (((s.marked object).objects other).destroyed = 0) = true
          rw [objects_marked_of_ne s hother]
          exact hst.standing
    · obtain ⟨index, rfl⟩ := not_forall_not.mp hobject
      have hdead (u : State) : Fallen (.field object index) (u.marked object) := by
        refine decide_eq_false ?_
        rw [objects_marked_self]
        exact Nat.succ_ne_zero _
      have hfields := Stays.destroyFields hreleaser object target.fieldCount
      rw [bind_ok (markDestroyed_apply object s), bind_ok (markDestroyed_apply object t)]
      exact Or.inr (Or.inr ⟨hfields _ (hdead s), hfields _ (hdead t)⟩)
  · rw [if_neg halive]
    exact .throw name .doubleDelete

theorem Blind.destroyObject (hreleaser : ∀ block, Blind name (releaser block)) (block : ℕ) :
    Blind name (destroyObject releaser block) := by
  refine .bind (.readBlock name block) fun cb ↦ .bind ?_ fun _ ↦ .modifyBlock name block _
  cases cb.ptr with
  | none => exact .pure name ()
  | some object => exact .deleteObject hreleaser object

/-- `Release` does not look at handles other than those it destroys. -/
theorem release_blind (name : HandleName) (bound block : ℕ) : Blind name (release bound block) := by
  induction bound generalizing block with
  | zero => exact .throw name .outOfFuel
  | succ bound ih =>
    refine .bind (.readBlock name block) fun cb ↦ .bind (.noteUnderflow name _) fun _ ↦
      .bind (.modifyBlock name block _) fun _ ↦ .bind (.readBlock name block) fun cb ↦ ?_
    split_ifs
    · refine .bind (.modifyBlock name block _) fun _ ↦ .bind (.destroyObject ih block) fun _ ↦
        .bind (.modifyBlock name block _) fun _ ↦ .bind (.readBlock name block) fun cb ↦ ?_
      split_ifs
      · exact .destroyBlock name block
      · exact .pure name ()
    · exact .pure name ()

end Nested

end StudStuff.SharedPtr
