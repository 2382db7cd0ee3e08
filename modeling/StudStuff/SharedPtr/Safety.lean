import StudStuff.SharedPtr.Construction

/-!
# Reference counting over whole runs

Each operation on handles returns from a sound state and leaves a sound one. The assignments make
their by-value parameter with one of the constructors, and the rest of all of them is
`assignTemporary`. `Reset()` and the assignment of an empty handle are compared with a release
after the handle was cleared (`State.cleared`). This is exact for the assignment, and holds for
`Reset()` as long as the handle still exists when the release returns.

`reachable_counted` is the safety of reference counting over whole runs (`Counted`).
-/

set_option autoImplicit false
set_option relaxedAutoImplicit false

namespace StudStuff.SharedPtr

open Lib

variable {s s' : State} {name source : HandleName} {handle handle' : Handle}

/-- A state between operations: nothing is being destroyed, and no by-value parameter lives. -/
structure Sound (s : State) : Prop where
  invariant : Invariant s [] []
  temporary : s.handles.cell .temporary = none

/-! ### Destruction and assignment -/

section Assign

theorem aliveCount_lt (s : State) : s.aliveCount < s.created + 1 := by
  have hle := Finset.card_filter_le (Finset.range s.created)
    fun object ↦ (s.objects object).destroyed = 0
  rw [Finset.card_range] at hle
  exact Nat.lt_succ_of_le hle

theorem fuel_apply (s : State) : fuel s = .ok (s.created + 1) s := rfl

/-- The destructor of a variable or of a by-value parameter. -/
theorem destroy_run (h : Invariant s [] []) (hcell : s.handles.cell name = some handle)
    (hname : ∀ object index, name ≠ .field object index) :
    ∃ s', destroy name s = .ok () s' ∧ Invariant s' [] [] ∧ Later (· = name) s s' ∧
      s'.handles.cell name = none ∧
        ∀ other ≠ name, (∀ object index, other ≠ .field object index) →
          s'.handles.cell other = s.handles.cell other := by
  obtain ⟨s', hrun, hinv, hlater, hgone, hkept⟩ :=
    (release_run (s.created + 1)).destroyHandle h hcell
      (fun object index heq ↦ absurd heq (hname object index)) (aliveCount_lt s)
  exact ⟨s', (bind_ok (fuel_apply s)).trans hrun, hinv, hlater, hgone, fun other hother hvariable ↦
    hkept other hother fun object index heq ↦ absurd heq (hvariable object index)⟩

theorem swap_apply (h : Invariant s [] []) {first second : HandleName}
    (hfirst : s.handles.cell first = some handle) (hsecond : s.handles.cell second = some handle') :
    swap first second s = .ok () { s with
      handles := (s.handles.store first handle').store second handle } := by
  have hstored : ∃ stored, (s.handles.store first handle').cell second = some stored := by
    rw [Heap.cell_store]
    split_ifs
    · exact ⟨handle', rfl⟩
    · exact ⟨handle', hsecond⟩
  obtain ⟨stored, hstored⟩ := hstored
  unfold swap
  rw [bind_ok (readHandle_apply (h.standing hfirst) hfirst),
    bind_ok (readHandle_apply (h.standing hsecond) hsecond),
    bind_ok (modifyHandle_apply (h.standing hfirst) hfirst _)]
  exact modifyHandle_apply (s := { s with handles := s.handles.store first handle' })
    (h.standing hsecond) hstored _

/-- The end of an assignment. -/
theorem assignTemporary_run (h : Invariant s [] []) (hcell : s.handles.cell name = some handle)
    (htemporary : s.handles.cell .temporary = some handle') :
    ∃ s', assignTemporary name s = .ok () s' ∧ Sound s' := by
  have hstored : ((s.handles.store name handle').store .temporary handle).cell .temporary =
      some handle := by
    rw [Heap.cell_store, if_pos rfl]
  obtain ⟨s', hrun, hinv, -, hgone, -⟩ :=
    destroy_run (h.exchange hcell htemporary) hstored (by simp)
  exact ⟨s', (bind_ok (swap_apply h hcell htemporary)).trans hrun, hinv, hgone⟩

/-- An assignment makes its by-value parameter, and then swaps with it and destroys it. -/
theorem assign_run (hcell : s.handles.cell name ≠ none) {construct : PtrM Unit}
    (hconstruct : ∃ s₁, construct s = .ok () s₁ ∧ Constructed .temporary s s₁) :
    ∃ s', (do construct
              assignTemporary name : PtrM Unit) s = .ok () s' ∧ Sound s' := by
  obtain ⟨s₁, hrun₁, hmade⟩ := hconstruct
  obtain ⟨handle, hhandle⟩ := Option.ne_none_iff_exists'.mp (hmade.lives name hcell)
  obtain ⟨handle', hhandle'⟩ := Option.ne_none_iff_exists'.mp hmade.made
  obtain ⟨s', hrun, hsound⟩ := assignTemporary_run hmade.invariant hhandle hhandle'
  exact ⟨s', (bind_ok hrun₁).trans hrun, hsound⟩

end Assign

/-! ### Clearing a handle -/

section Reset

/-- The state in which a handle was cleared and its reference is still to be released. -/
def State.cleared (s : State) (name : HandleName) (kind : HandleKind) : State :=
  { s with handles := s.handles.store name (.empty kind) }

/-- Releasing the reference of a handle that was cleared. -/
theorem cleared_run (h : Invariant s [] []) (hcell : s.handles.cell name = some handle) :
    ∃ s', releaseCb (release (s.created + 1)) handle (s.cleared name handle.kind) = .ok () s' ∧
      Invariant s' [] [] ∧ Later (fun _ ↦ False) (s.cleared name handle.kind) s' :=
  (release_run (s.created + 1)).releaseCb (h.detach hcell handle.kind)
    (aliveCount_lt (s.cleared name handle.kind))

/-- The assignment of an empty handle clears the handle and then releases its reference. -/
theorem emptyAssign_apply (hs : Sound s) (hcell : s.handles.cell name = some handle) :
    emptyAssign name s =
      releaseCb (release (s.created + 1)) handle (s.cleared name handle.kind) := by
  have hname : name ≠ .temporary := by
    rintro rfl
    rw [hs.temporary] at hcell
    cases hcell
  have hmade := hs.invariant.createEmpty handle.kind hs.temporary (by simp)
  have hcell' : (s.handles.store .temporary (.empty handle.kind)).cell name = some handle := by
    rw [Heap.cell_store, if_neg hname, hcell]
  have hempty : (s.handles.store .temporary (.empty handle.kind)).cell .temporary =
      some (.empty handle.kind) := by
    rw [Heap.cell_store, if_pos rfl]
  have htaken : (((s.handles.store .temporary (.empty handle.kind)).store name
      (.empty handle.kind)).store .temporary handle).release .temporary =
        s.handles.store name (.empty handle.kind) := by
    apply Heap.ext_cell
    intro other
    simp only [Heap.cell_release, Heap.cell_store]
    split_ifs with htemporary hother
    · rw [htemporary] at hother
      exact absurd hother.symm hname
    · rw [htemporary, hs.temporary]
    · rfl
    · rfl
  unfold emptyAssign
  rw [bind_ok (readHandle_apply (hs.invariant.standing hcell) hcell),
    bind_ok (createHandle_apply _ _ s), assignTemporary, bind_ok (swap_apply hmade hcell' hempty),
    destroy, bind_ok (fuel_apply _), destroyHandle, bind_ok (takeHandle_apply (by simp; rfl))]
  rw [htaken]
  rfl

theorem standing_congr (hobjects : s.objects = s'.objects) (name : HandleName) :
    s.standing name = s'.standing name := by
  cases name with
  | root index => rfl
  | temporary => rfl
  | field object index => rw [State.standing, State.standing, hobjects]

theorem alike_cleared (h : Invariant s [] []) (hcell : s.handles.cell name = some handle) :
    Alike name s (s.cleared name handle.kind) := by
  refine ⟨fun other hother ↦ ?_, ⟨handle, .empty handle.kind, hcell, ?_, ?_⟩, rfl, rfl, rfl, rfl,
    h.standing hcell⟩
  · exact (if_neg hother).symm
  · exact if_pos rfl
  · cases handle <;> rfl

/-- A handle that was cleared stays as it is until the object that contains it is destroyed. -/
theorem cell_of_cleared {kind : HandleKind}
    (hlater : Later (fun _ ↦ False) (s.cleared name kind) s')
    (hlive : s'.handles.cell name ≠ none) : s'.handles.cell name = some (.empty kind) := by
  rcases hlater.cell_eq_or name with heq | hnone
  · rw [heq]
    exact if_pos rfl
  · exact absurd hnone hlive

/-- `Reset()` clears the handle once the release has returned. -/
theorem reset_clear {s₁ : State} (h : Invariant s [] []) (hcell : s.handles.cell name = some handle)
    (hrun : releaseCb (release (s.created + 1)) handle s = .ok () s₁)
    (hstanding : s₁.standing name = true) (hcell₁ : s₁.handles.cell name = some handle') :
    reset name s = .ok () (s₁.cleared name handle'.kind) := by
  have hstored : (s₁.handles.store name handle'.clearCb).cell name = some handle'.clearCb :=
    if_pos rfl
  have hclear := modifyHandle_apply
    (s := { s₁ with handles := s₁.handles.store name handle'.clearCb })
    hstanding hstored Handle.clearPtr
  unfold reset
  rw [bind_ok (readHandle_apply (h.standing hcell) hcell), bind_ok (fuel_apply s), bind_ok hrun,
    bind_ok (modifyHandle_apply hstanding hcell₁ _), hclear]
  rw [Heap.store_store, clearPtr_clearCb]
  rfl

/-- `Reset()` runs like the release of the cleared handle, if the object that contains the handle
is not destroyed by it. -/
theorem reset_apply (h : Invariant s [] []) (hcell : s.handles.cell name = some handle)
    (hrun : releaseCb (release (s.created + 1)) handle (s.cleared name handle.kind) = .ok () s')
    (hlater : Later (fun _ ↦ False) (s.cleared name handle.kind) s')
    (hstanding : s'.standing name = true) : reset name s = .ok () s' := by
  have hblind := Blind.releaseCb (release_blind name (s.created + 1)) handle
  rcases hblind.parallel s _ (alike_cleared h hcell) with
    ⟨value, s₁, t, hs, ht, halike⟩ | ⟨reason, s₁, t, -, ht⟩ | ⟨-, hfallen⟩
  · rw [hrun] at ht
    cases ht
    obtain ⟨held, held', hheld, hheld', hkind⟩ := halike.live
    have hempty := cell_of_cleared hlater (hheld' ▸ Option.some_ne_none held')
    rw [hheld', Option.some.injEq] at hempty
    rw [reset_clear h hcell hs halike.standing hheld]
    refine congrArg (EStateM.Result.ok ()) (State.ext (Heap.ext_cell fun other ↦ ?_) halike.created
      halike.objects halike.blocks halike.underflowed)
    by_cases hother : other = name
    · rw [hother, hheld', hempty, hkind, hempty]
      rw [State.cleared, Heap.cell_store, if_pos rfl]
      cases handle <;> rfl
    · rw [← halike.cell other hother]
      exact if_neg hother
  · rw [hrun] at ht
    cases ht
  · rw [hrun] at hfallen
    exact absurd hstanding (Bool.eq_false_iff.mp hfallen)

/-- `Reset()` does not return if the object that contains the handle is destroyed by it. -/
theorem reset_fails (h : Invariant s [] []) (hcell : s.handles.cell name = some handle)
    (hrun : releaseCb (release (s.created + 1)) handle (s.cleared name handle.kind) = .ok () s')
    (hstanding : s'.standing name = false) (s'' : State) : reset name s ≠ .ok () s'' := by
  have hblind := Blind.releaseCb (release_blind name (s.created + 1)) handle
  have hread := readHandle_apply (h.standing hcell) hcell
  intro hreset
  unfold reset at hreset
  rw [bind_ok hread, bind_ok (fuel_apply s)] at hreset
  rcases hblind.parallel s _ (alike_cleared h hcell) with
    ⟨value, s₁, t, -, ht, halike⟩ | ⟨reason, s₁, t, -, ht⟩ | ⟨hfallen, -⟩
  · rw [hrun] at ht
    cases ht
    have hstanding₁ := halike.standing
    rw [standing_congr halike.objects, hstanding] at hstanding₁
    cases hstanding₁
  · rw [hrun] at ht
    cases ht
  · cases hs : releaseCb (release (s.created + 1)) handle s with
    | ok value s₁ =>
      rw [hs] at hfallen
      have hstop : modifyHandle name Handle.clearCb s₁ = .error .badAccess s₁ :=
        modifyHandle_fallen hfallen _
      rw [bind_ok hs, bind_error hstop] at hreset
      cases hreset
    | error reason s₁ =>
      rw [bind_error hs] at hreset
      cases hreset

/-- Releasing the reference of a handle leaves a sound state. -/
theorem sound_of_cleared (hs : Sound s) (hcell : s.handles.cell name = some handle)
    (hinv : Invariant s' [] []) (hlater : Later (fun _ ↦ False) (s.cleared name handle.kind) s') :
    Sound s' := by
  have hname : HandleName.temporary ≠ name := by
    rintro rfl
    rw [hs.temporary] at hcell
    cases hcell
  refine ⟨hinv, (hlater.cell_eq (by simp)).trans ?_⟩
  exact (if_neg hname).trans hs.temporary

/-- The object that contains a handle stands when the handle is a variable, or is weak. -/
theorem standing_of_cleared (h : Invariant s [] []) (hcell : s.handles.cell name = some handle)
    (hsafe : handle.kind = .weak ∨ name.isRoot = true)
    (hrun : releaseCb (release (s.created + 1)) handle (s.cleared name handle.kind) = .ok () s') :
    s'.standing name = true := by
  rcases hsafe with hweak | hroot
  · rcases handle with ⟨cb, ptr⟩ | ⟨_ | block⟩
    · cases hweak
    · cases hrun
      exact h.standing hcell
    · obtain ⟨cb, hrelease, -⟩ := releaseWeak_run (h.detach hcell .weak)
      have hends := hrelease.symm.trans hrun
      cases hends
      exact h.standing hcell
  · cases name with
    | root index => rfl
    | field object index => cases hroot
    | temporary => cases hroot

theorem reset_run (hs : Sound s) (hcell : s.handles.cell name = some handle)
    (hsafe : handle.kind = .weak ∨ name.isRoot = true) :
    ∃ s', reset name s = .ok () s' ∧ Sound s' := by
  obtain ⟨s', hrun, hinv, hlater⟩ := cleared_run hs.invariant hcell
  have hstanding := standing_of_cleared hs.invariant hcell hsafe hrun
  exact ⟨s', reset_apply hs.invariant hcell hrun hlater hstanding,
    sound_of_cleared hs hcell hinv hlater⟩

end Reset

/-! ### The interface -/

section Interface

theorem Constructed.sound (hmade : Constructed name s s') (hs : Sound s)
    (hname : name ≠ .temporary) : Sound s' :=
  ⟨hmade.invariant, hmade.temporary hname hs.temporary⟩

theorem cell_of_kind? {kind : HandleKind} (hkind : s.kind? name = some kind) :
    ∃ handle, s.handles.cell name = some handle ∧ handle.kind = kind :=
  Option.map_eq_some_iff.mp hkind

theorem shared_of_kind (hkind : handle.kind = .shared) : ∃ cb ptr, handle = .shared cb ptr := by
  cases handle with
  | shared cb ptr => exact ⟨cb, ptr, rfl⟩
  | weak cb => cases hkind

theorem weak_of_kind (hkind : handle.kind = .weak) : ∃ cb, handle = .weak cb := by
  cases handle with
  | shared cb ptr => cases hkind
  | weak cb => exact ⟨cb, rfl⟩

theorem kind?_eq_none : s.kind? name = none ↔ s.handles.cell name = none :=
  Option.map_eq_none_iff

theorem exists_handle (hlive : s.kind? name ≠ none) :
    ∃ handle, s.handles.cell name = some handle :=
  Option.ne_none_iff_exists'.mp fun hnone ↦ hlive (kind?_eq_none.mpr hnone)

/-- A constructor of a variable. -/
theorem construct_sound (hs : Sound s) {index : ℕ} {program : PtrM Unit}
    (hrun : ∃ s', program s = .ok () s' ∧ Constructed (.root index) s s') :
    ∃ s', program s = .ok () s' ∧ Sound s' := by
  obtain ⟨s', hrun, hmade⟩ := hrun
  exact ⟨s', hrun, hmade.sound hs (by simp)⟩

theorem swap_run (hs : Sound s) {first second : HandleName}
    (hfirst : s.handles.cell first = some handle) (hsecond : s.handles.cell second = some handle') :
    ∃ s', swap first second s = .ok () s' ∧ Sound s' := by
  have hother {name : HandleName} {handle : Handle} (hcell : s.handles.cell name = some handle) :
      HandleName.temporary ≠ name := by
    rintro rfl
    rw [hs.temporary] at hcell
    cases hcell
  refine ⟨_, swap_apply hs.invariant hfirst hsecond, hs.invariant.exchange hfirst hsecond, ?_⟩
  rw [Heap.cell_store, if_neg (hother hsecond), Heap.cell_store, if_neg (hother hfirst)]
  exact hs.temporary

/-- An operation whose precondition holds returns from a sound state and leaves a sound one. There
is one case for each operation. -/
theorem exec_run (hs : Sound s) (op : Op) (hvalid : op.Valid s) :
    ∃ s', exec op s = .ok () s' ∧ Sound s' := by
  have hinv := hs.invariant
  have hfresh := hs.temporary
  cases op with
  | constructEmpty name kind =>
    exact construct_sound hs (createEmpty_run hinv (kind?_eq_none.mp hvalid) (by simp) kind)
  | constructRaw name kinds =>
    exact construct_sound hs (constructRaw_run hinv (kind?_eq_none.mp hvalid) (by simp) kinds)
  | copyConstruct name source =>
    obtain ⟨handle, hsource⟩ := exists_handle hvalid.2
    exact construct_sound hs (copyConstruct_run hinv (kind?_eq_none.mp hvalid.1) (by simp) hsource)
  | moveConstruct name source =>
    obtain ⟨handle, hsource⟩ := exists_handle hvalid.2
    exact construct_sound hs (moveConstruct_run hinv (kind?_eq_none.mp hvalid.1) (by simp) hsource)
  | weakConstruct name source =>
    obtain ⟨handle, hsource, hkind⟩ := cell_of_kind? hvalid.2
    obtain ⟨cb, ptr, rfl⟩ := shared_of_kind hkind
    exact construct_sound hs (weakConstruct_run hinv (kind?_eq_none.mp hvalid.1) (by simp) hsource)
  | lock name source =>
    obtain ⟨handle, hsource, hkind⟩ := cell_of_kind? hvalid.2
    obtain ⟨cb, rfl⟩ := weak_of_kind hkind
    exact construct_sound hs (lock_run hinv (kind?_eq_none.mp hvalid.1) (by simp) hsource)
  | copyAssign name source =>
    obtain ⟨handle, hcell⟩ := exists_handle hvalid.1
    obtain ⟨handle', hsource⟩ := exists_handle (hvalid.2 ▸ hvalid.1)
    exact assign_run (by simp [hcell]) (copyConstruct_run hinv hfresh (by simp) hsource)
  | moveAssign name source =>
    obtain ⟨handle, hcell⟩ := exists_handle hvalid.1
    obtain ⟨handle', hsource⟩ := exists_handle (hvalid.2 ▸ hvalid.1)
    exact assign_run (by simp [hcell]) (moveConstruct_run hinv hfresh (by simp) hsource)
  | weakAssign name source =>
    obtain ⟨handle, hcell, -⟩ := cell_of_kind? hvalid.1
    obtain ⟨handle', hsource, hkind⟩ := cell_of_kind? hvalid.2
    obtain ⟨cb, ptr, rfl⟩ := shared_of_kind hkind
    exact assign_run (by simp [hcell]) (weakConstruct_run hinv hfresh (by simp) hsource)
  | emptyAssign name =>
    obtain ⟨handle, hcell⟩ := exists_handle hvalid
    obtain ⟨s', hrun, hinv', hlater⟩ := cleared_run hinv hcell
    exact ⟨s', (emptyAssign_apply hs hcell).trans hrun, sound_of_cleared hs hcell hinv' hlater⟩
  | resetTo name kinds =>
    obtain ⟨handle, hcell, -⟩ := cell_of_kind? hvalid
    exact assign_run (by simp [hcell]) (constructRaw_run hinv hfresh (by simp) kinds)
  | swap first second =>
    obtain ⟨handle, hfirst⟩ := exists_handle hvalid.1
    obtain ⟨handle', hsecond⟩ := exists_handle (hvalid.2 ▸ hvalid.1)
    exact swap_run hs hfirst hsecond
  | reset name =>
    rcases hvalid with hweak | ⟨hshared, hroot⟩
    · obtain ⟨handle, hcell, hkind⟩ := cell_of_kind? hweak
      exact reset_run hs hcell (Or.inl hkind)
    · obtain ⟨handle, hcell, -⟩ := cell_of_kind? hshared
      exact reset_run hs hcell (Or.inr hroot)
  | destroy name =>
    obtain ⟨handle, hcell⟩ := exists_handle hvalid
    obtain ⟨s', hrun, hinv', -, -, hkept⟩ := destroy_run hinv hcell (by simp)
    exact ⟨s', hrun, hinv', (hkept .temporary (by simp) (by simp)).trans hfresh⟩

theorem sound_start : Sound .start := by
  refine ⟨⟨fun block ↦ ?_, fun block ↦ ?_, fun _ _ ↦ ⟨rfl, rfl⟩, fun _ hlt ↦ ?_, fun _ ↦ ?_,
    fun _ hmem ↦ ?_, fun _ hlt ↦ ?_, fun _ hlt ↦ ?_, fun _ _ _ hcell ↦ ?_, fun _ _ hlt _ _ ↦ ?_,
    rfl⟩, rfl⟩
  · rfl
  · rfl
  · cases hlt
  · simp [State.start]
  · cases hmem
  · cases hlt
  · cases hlt
  · cases hcell
  · cases hlt

/-- An operation that returns leaves a sound state. -/
theorem Sound.step (hs : Sound s) {op : Op} (hvalid : op.Valid s)
    (hexec : exec op s = .ok () s') : Sound s' := by
  obtain ⟨s'', hrun, hsound⟩ := exec_run hs op hvalid
  cases hexec.symm.trans hrun
  exact hsound

/-- Every reachable state is sound. -/
theorem sound_of_reachable (hreach : Reachable s) : Sound s := by
  induction hreach with
  | start => exact sound_start
  | step op _ hvalid hexec ih => exact ih.step hvalid hexec

theorem run_cons {op : Op} {ops : List Op} (hvalid : op.Valid s) (hexec : exec op s = .ok () s') :
    run (op :: ops) s = run ops s' := by
  rw [run, if_pos hvalid, hexec]

/-- The states that `run` computes are reachable. -/
theorem Reachable.of_run {ops : List Op} (hreach : Reachable s) (hrun : run ops s = some s') :
    Reachable s' := by
  induction ops generalizing s with
  | nil =>
    rw [run, Option.some.injEq] at hrun
    exact hrun ▸ hreach
  | cons op ops ih =>
    rw [run] at hrun
    split_ifs at hrun with hvalid
    cases hexec : exec op s with
    | ok value s₁ =>
      rw [hexec] at hrun
      exact ih (hreach.step op hvalid hexec) hrun
    | error reason s₁ =>
      rw [hexec] at hrun
      cases hrun

/-- What reference counting promises about a state between operations. An operation that can run
from there stops at no `Fault`: it never touches a block that was freed, so that no block is freed
before the last access of a handle to it or before the destructor of its object returned, and no
deleter runs twice. -/
structure Counted (s : State) : Prop where
  useCnt : ∀ block < s.created, (s.blocks block).useCnt = s.handles.count (Handle.strongTo block)
  weakCnt : ∀ block < s.created, (s.blocks block).weakCnt = s.handles.count (Handle.weakTo block)
  deleted : ∀ block < s.created, (s.objects block).destroyed ≤ 1 ∧
    ((s.objects block).destroyed = 1 ↔ (s.blocks block).useCnt = 0)
  freed : ∀ block < s.created, (s.blocks block).freed ≤ 1 ∧
    ((s.blocks block).freed = 1 ↔ (s.blocks block).useCnt = 0 ∧ (s.blocks block).weakCnt = 0)
  attached : ∀ name handle block, s.handles.cell name = some handle →
    handle.strongTo block = true ∨ handle.weakTo block = true →
      block < s.created ∧ (s.blocks block).freed = 0
  settled : ∀ block < s.created, (s.blocks block).isDestroying = false
  field : ∀ object index, s.handles.cell (.field object index) ≠ none →
    object < s.created ∧ (s.objects object).destroyed = 0
  noUnderflow : s.underflowed = false
  runs : ∀ op : Op, op.Valid s → ∃ s', exec op s = .ok () s'

theorem Sound.counted (hs : Sound s) : Counted s := by
  have h := hs.invariant
  refine ⟨fun block _ ↦ ?_, fun block _ ↦ ?_, fun block hlt ↦ ?_, fun block hlt ↦ ?_,
    fun name handle block hcell hattached ↦ ?_, fun block _ ↦ ?_, fun object index hlive ↦ ?_,
    h.underflow, fun op hvalid ↦ ?_⟩
  · exact h.use block
  · exact h.weak block
  · rw [h.destroyed block hlt]
    split_ifs with huse
    · simp [huse]
    · simp [huse]
  · rw [h.freed block hlt]
    split_ifs with hzero
    · simpa using hzero
    · simpa using hzero
  · rcases hattached with hstrong | hweak
    · exact h.usable (Or.inl (h.useCnt_ne_zero hcell hstrong))
    · exact h.usable (Or.inr (h.weakCnt_ne_zero hcell hweak))
  · rw [← Bool.not_eq_true, h.destroying block]
    exact List.not_mem_nil
  · obtain ⟨handle, hcell⟩ := Option.ne_none_iff_exists'.mp hlive
    obtain ⟨hlt, -, halive | hdying⟩ := h.field object index handle hcell
    · exact ⟨hlt, halive⟩
    · cases hdying
  · obtain ⟨s', hrun, -⟩ := exec_run hs op hvalid
    exact ⟨s', hrun⟩

/-- Reference counting is safe in every reachable state, whatever the handles own each other. -/
theorem reachable_counted (hreach : Reachable s) : Counted s :=
  (sound_of_reachable hreach).counted

/-- An object that owns itself, after the variable that made it is gone. -/
theorem reachable_counted_cycle :
    ∃ s ∈ run [.constructRaw 0 [.shared], .copyAssign (.field 0 0) (.root 0), .destroy 0] .start,
      Counted s := by
  obtain ⟨s, hrun⟩ := Option.isSome_iff_exists.mp (show (run [.constructRaw 0 [.shared],
    .copyAssign (.field 0 0) (.root 0), .destroy 0] .start).isSome by decide +kernel)
  exact ⟨s, hrun, reachable_counted (.of_run .start hrun)⟩

end Interface

end StudStuff.SharedPtr
