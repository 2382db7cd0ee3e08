import StudStuff.SharedPtr.Safety

/-!
# `Reset()` against the assignment of an empty handle

Both give up one reference, but `Reset()` clears the handle only afterwards. The objects that are
destroyed on the way are exactly those that are `Doomed`: all their owners are the handle itself or
fields of doomed objects. So the handle is gone when the release returns if and only if it is a
field of a doomed object, which takes a strong cycle through the handle. `reset_agrees_iff` says
that `Reset()` and the assignment agree in all other cases, and that `Reset()` goes wrong in these:
the destructor of the object releases the reference of the handle a second time.
-/

set_option autoImplicit false
set_option relaxedAutoImplicit false

namespace StudStuff.SharedPtr

open Lib

variable {s s' : State} {name : HandleName} {handle : Handle}

/-! ### Doomed objects -/

/-- The objects that do not outlive the reference of a handle: all their owners are the handle
itself or fields of such objects. -/
inductive Doomed (s : State) (name : HandleName) : ℕ → Prop
  | intro (object : ℕ)
      (hvariable : ∀ other handle, s.handles.cell other = some handle →
        handle.strongTo object = true → other ≠ name → ∃ owner index, other = .field owner index)
      (hfield : ∀ owner index handle, s.handles.cell (.field owner index) = some handle →
        handle.strongTo object = true → .field owner index ≠ name → Doomed s name owner) :
      Doomed s name object

/-- The region of the doomed objects and of their fields. -/
def Region.ofHandle (s : State) (name : HandleName) (kind : HandleKind) :
    Region (s.cleared name kind) where
  doomed object := Doomed s name object
  lost other := ∃ object index, other = .field object index ∧ Doomed s name object
  fields object index hdoomed := ⟨object, index, rfl, hdoomed⟩
  closed object _ howners := by
    have hlost (other : HandleName) (handle : Handle) (hcell : s.handles.cell other = some handle)
        (hstrong : handle.strongTo object = true) (hother : other ≠ name) :
        ∃ owner index, other = .field owner index ∧ Doomed s name owner :=
      howners other handle ((if_neg hother).trans hcell) hstrong
    refine .intro object (fun other handle hcell hstrong hother ↦ ?_)
      fun owner index handle hcell hstrong hother ↦ ?_
    · obtain ⟨owner, index, heq, -⟩ := hlost other handle hcell hstrong hother
      exact ⟨owner, index, heq⟩
    · obtain ⟨owner', index', heq, hdoomed⟩ := hlost _ handle hcell hstrong hother
      obtain ⟨rfl, -⟩ := HandleName.field.inj heq
      exact hdoomed

section Doomed

variable {kind : HandleKind}

/-- Only doomed objects are destroyed. -/
theorem doomed_of_destroyed (hlater : Later (fun _ ↦ False) (s.cleared name kind) s') {object : ℕ}
    (halive : (s.objects object).destroyed = 0) (hdestroyed : (s'.objects object).destroyed ≠ 0) :
    Doomed s name object :=
  ((hlater.within (.ofHandle s name kind) (fun _ ↦ False.elim) (.refl _)).doomed object
    hdestroyed).resolve_left (absurd halive)

/-- All doomed objects are destroyed. The induction is on what dooms them. -/
theorem destroyed_of_doomed (hinv : Invariant s' [] [])
    (hlater : Later (fun _ ↦ False) (s.cleared name kind) s') {object : ℕ}
    (hdoomed : Doomed s name object) (hlt : object < s.created) :
    (s'.objects object).destroyed ≠ 0 := by
  induction hdoomed with
  | intro object hvariable hfield ih =>
    have hlt' : object < s'.created := hlater.created ▸ hlt
    rw [hinv.destroyed object hlt']
    by_cases huse : (s'.blocks object).useCnt = 0
    · rw [if_pos huse]
      exact Nat.one_ne_zero
    · rw [hinv.use object, State.attached, List.countP_nil, Nat.add_zero] at huse
      obtain ⟨other, handle, hcell, hstrong⟩ := Heap.exists_of_count_ne_zero huse
      have hstart : (s.cleared name kind).handles.cell other = some handle := by
        rcases hlater.cell_eq_or other with heq | hnone
        · rw [← heq, hcell]
        · rw [hnone] at hcell
          cases hcell
      have hother : other ≠ name := by
        rintro rfl
        rw [State.cleared, Heap.cell_store, if_pos rfl] at hstart
        obtain rfl := Option.some.inj hstart
        rw [strongTo_empty] at hstrong
        cases hstrong
      have hstart' : s.handles.cell other = some handle := (if_neg hother).symm.trans hstart
      obtain ⟨owner, index, rfl⟩ := hvariable other handle hstart' hstrong hother
      obtain ⟨hlive, -, halive | hdying⟩ := hinv.field owner index handle hcell
      · have hcreated : owner < s.created := hlater.created ▸ hlive
        exact absurd halive (ih owner index handle hstart' hstrong hother hcreated)
      · cases hdying

end Doomed

/-! ### When `Reset()` is right -/

section Agree

/-- The object that contains a handle stands after the release unless it is doomed. -/
theorem standing_iff (h : Invariant s [] []) (hcell : s.handles.cell name = some handle)
    (hinv : Invariant s' [] [])
    (hlater : Later (fun _ ↦ False) (s.cleared name handle.kind) s') :
    s'.standing name = true ↔
      ∀ object index, name = .field object index → ¬Doomed s name object := by
  cases name with
  | root index => exact ⟨fun _ _ _ heq ↦ (by cases heq), fun _ ↦ rfl⟩
  | temporary => exact ⟨fun _ _ _ heq ↦ (by cases heq), fun _ ↦ rfl⟩
  | field object index =>
    obtain ⟨hlt, -, halive | hdying⟩ := h.field object index handle hcell
    · rw [State.standing, decide_eq_true_iff]
      constructor
      · intro hstands other index' heq hdoomed
        obtain ⟨rfl, -⟩ := HandleName.field.inj heq
        exact destroyed_of_doomed hinv hlater hdoomed hlt hstands
      · intro hsafe
        by_contra hdestroyed
        exact hsafe object index rfl (doomed_of_destroyed hlater halive hdestroyed)
    · cases hdying

/-- `Reset()` of an attached `SharedPtr` returns and does what the assignment of an empty handle
does, if and only if the object that contains the handle is not doomed. -/
theorem reset_agrees_iff (hreach : Reachable s) {block : ℕ} {ptr : Option ℕ}
    (hcell : s.handles.cell name = some (.shared (some block) ptr)) :
    (∃ s', reset name s = .ok () s' ∧ emptyAssign name s = .ok () s' ∧ Counted s') ↔
      ∀ object index, name = .field object index → ¬Doomed s name object := by
  have hs := sound_of_reachable hreach
  obtain ⟨s', hrun, hinv, hlater⟩ := cleared_run hs.invariant hcell
  have hassign := (emptyAssign_apply hs hcell).trans hrun
  rw [← standing_iff hs.invariant hcell hinv hlater]
  constructor
  · rintro ⟨s'', hreset, -, -⟩
    by_contra hfallen
    exact reset_fails hs.invariant hcell hrun (Bool.eq_false_iff.mpr hfallen) s'' hreset
  · intro hstanding
    exact ⟨s', reset_apply hs.invariant hcell hrun hlater hstanding, hassign,
      (sound_of_cleared hs hcell hinv hlater).counted⟩

/-- The handle of a parent to its child, which may be given up at any time. -/
theorem reset_agrees_iff_child :
    ∃ s ∈ run [.constructRaw 0 [.shared], .constructRaw 1 [], .copyAssign (.field 0 0) (.root 1)]
        .start,
      ((∃ s', reset (.field 0 0) s = .ok () s' ∧ emptyAssign (.field 0 0) s = .ok () s' ∧
          Counted s') ↔
        ∀ object index, HandleName.field 0 0 = .field object index →
          ¬Doomed s (.field 0 0) object) := by
  obtain ⟨s, hrun, hcell⟩ : ∃ s ∈ run [.constructRaw 0 [.shared], .constructRaw 1 [],
      .copyAssign (.field 0 0) (.root 1)] .start,
        s.handles.cell (.field 0 0) = some (.shared (some 1) (some 1)) := by
    decide +kernel
  exact ⟨s, hrun, reset_agrees_iff (.of_run .start hrun) hcell⟩

/-- Two objects that own each other, after their variables are gone. Breaking the cycle with
`Reset()` releases the second object twice: its counter wraps around, so that a `WeakPtr` to it
reports owners that do not exist. The assignment of an empty handle destroys both objects. -/
theorem reset_breaks_cycle :
    ∃ s ∈ run [.constructRaw 0 [.shared], .constructRaw 1 [.shared],
        .copyAssign (.field 0 0) (.root 1), .copyAssign (.field 1 0) (.root 0),
        .weakConstruct 2 (.root 1), .destroy 0, .destroy 1] .start,
      s.handles.cell (.field 0 0) = some (.shared (some 1) (some 1)) ∧
      s.handles.cell (.root 2) = some (.weak (some 1)) ∧
      ((finalState (reset (.field 0 0) s)).blocks 1).useCnt = 2 ^ 64 - 1 ∧
      ((finalState (emptyAssign (.field 0 0) s)).blocks 1).useCnt = 0 ∧
      ¬∃ s', reset (.field 0 0) s = .ok () s' ∧ emptyAssign (.field 0 0) s = .ok () s' ∧
        Counted s' := by
  obtain ⟨s, hrun, hfield, hweak, hreset, hassign⟩ :
      ∃ s ∈ run [.constructRaw 0 [.shared], .constructRaw 1 [.shared],
          .copyAssign (.field 0 0) (.root 1), .copyAssign (.field 1 0) (.root 0),
          .weakConstruct 2 (.root 1), .destroy 0, .destroy 1] .start,
        s.handles.cell (.field 0 0) = some (.shared (some 1) (some 1)) ∧
        s.handles.cell (.root 2) = some (.weak (some 1)) ∧
        ((finalState (reset (.field 0 0) s)).blocks 1).useCnt = 2 ^ 64 - 1 ∧
        ((finalState (emptyAssign (.field 0 0) s)).blocks 1).useCnt = 0 := by
    decide +kernel
  refine ⟨s, hrun, hfield, hweak, hreset, hassign, ?_⟩
  rintro ⟨s', hends, hends', -⟩
  rw [hends] at hreset
  rw [hends'] at hassign
  exact absurd (hreset.symm.trans hassign) (by decide)

end Agree

end StudStuff.SharedPtr
