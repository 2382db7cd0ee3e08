import Mathlib.Data.Fintype.EquivFin
import Mathlib.Logic.Relation
import StudStuff.SharedPtr.Safety

/-!
# Weak references never cause a leak

When the strong references between objects form no cycle and every variable is destroyed or reset,
in any order, every object is destroyed once and every control block is freed once. What the
discards leave behind is `Faded`: the fields that still live hold what they held at the start, and
a variable that was discarded holds nothing. An object that is left would have an owner that is
left, and so on without end (`Faded.none_left`).
-/

set_option autoImplicit false
set_option relaxedAutoImplicit false

namespace StudStuff.SharedPtr

open Lib

variable {s s' s'' : State} {name : HandleName} {handle : Handle}

/-! ### Ownership -/

/-- A field of one object is a `SharedPtr` to another. -/
def State.Owns (s : State) (owner object : ℕ) : Prop :=
  ∃ index handle, s.handles.cell (.field owner index) = some handle ∧
    handle.strongTo object = true

/-- The strong references between objects form no cycle. -/
def State.Acyclic (s : State) : Prop :=
  ∀ object, ¬Relation.TransGen s.Owns object object

/-- Objects whose fields all are weak do not own each other. -/
theorem acyclic_of_weak (hweak : ∀ object index, s.kind? (.field object index) ≠ some .shared) :
    s.Acyclic := by
  intro object hcycle
  obtain ⟨owner, -, index, handle, hcell, hstrong⟩ := Relation.TransGen.tail'_iff.mp hcycle
  cases handle with
  | shared cb ptr => exact hweak owner index (congrArg (Option.map Handle.kind) hcell)
  | weak cb => cases hstrong

/-! ### Discarding the variables -/

/-- How a program gives up one of its variables. -/
inductive Discard
  | destroy (index : ℕ)
  | reset (index : ℕ)
  deriving DecidableEq, Repr

/-- The variable that is given up. -/
def Discard.index : Discard → ℕ
  | .destroy index | .reset index => index

/-- The operation that gives it up. -/
def Discard.op : Discard → Op
  | .destroy index => .destroy index
  | .reset index => .reset (.root index)

/-- Some variables were given up, and whatever was destroyed with them. -/
structure Faded (done : ℕ → Prop) (s s' : State) : Prop where
  sound : Sound s'
  created : s'.created = s.created
  field : ∀ object index, s'.handles.cell (.field object index) =
    s.handles.cell (.field object index) ∨ s'.handles.cell (.field object index) = none
  kept : ∀ index, ¬done index → s'.handles.cell (.root index) = s.handles.cell (.root index)
  gone : ∀ index, done index → ∀ handle, s'.handles.cell (.root index) = some handle →
    ∃ kind, handle = .empty kind

section Discards

theorem Faded.refl (hs : Sound s) : Faded (fun _ ↦ False) s s :=
  ⟨hs, rfl, fun _ _ ↦ Or.inl rfl, fun _ _ ↦ rfl, fun _ h ↦ h.elim⟩

theorem Faded.trans {done done' : ℕ → Prop} (h : Faded done s s') (h' : Faded done' s' s'') :
    Faded (fun index ↦ done index ∨ done' index) s s'' := by
  refine ⟨h'.sound, h'.created.trans h.created, fun object index ↦ ?_, fun index hkept ↦ ?_,
    fun index hdone handle hcell ↦ ?_⟩
  · rcases h'.field object index with heq | hnone
    · rw [heq]
      exact h.field object index
    · exact Or.inr hnone
  · rw [h'.kept index fun hdone ↦ hkept (Or.inr hdone),
      h.kept index fun hdone ↦ hkept (Or.inl hdone)]
  · by_cases hdone' : done' index
    · exact h'.gone index hdone' handle hcell
    · rw [h'.kept index hdone'] at hcell
      exact h.gone index (hdone.resolve_right hdone') handle hcell

/-- A variable may be given up while it lives. -/
theorem Discard.valid (discard : Discard) (hlive : s.handles.cell (.root discard.index) ≠ none) :
    discard.op.Valid s := by
  obtain ⟨handle, hcell⟩ := Option.ne_none_iff_exists'.mp hlive
  cases discard with
  | destroy index => exact fun hnone ↦ hlive (kind?_eq_none.mp hnone)
  | reset index =>
    have hkind : s.kind? (.root index) = some handle.kind := congrArg (Option.map Handle.kind) hcell
    cases handle with
    | shared cb ptr => exact Or.inr ⟨hkind, rfl⟩
    | weak cb => exact Or.inl hkind

/-- One variable is given up. -/
theorem discard_run (hs : Sound s) (discard : Discard)
    (hlive : s.handles.cell (.root discard.index) ≠ none) :
    ∃ s', exec discard.op s = .ok () s' ∧ Faded (· = discard.index) s s' := by
  obtain ⟨handle, hcell⟩ := Option.ne_none_iff_exists'.mp hlive
  cases discard with
  | destroy index =>
    obtain ⟨s', hrun, hinv, hlater, hgone, hkept⟩ := destroy_run hs.invariant hcell (by simp)
    refine ⟨s', hrun, ⟨hinv, ?_⟩, hlater.created, fun object index ↦ hlater.cell_eq_or _,
      fun other hother ↦ hkept _ (fun heq ↦ hother (HandleName.root.inj heq)) (by simp), ?_⟩
    · exact (hkept .temporary (by simp) (by simp)).trans hs.temporary
    · rintro other rfl handle hcell'
      exact absurd (hcell'.symm.trans hgone) (Option.some_ne_none handle)
  | reset index =>
    obtain ⟨s', hrun, hinv, hlater⟩ := cleared_run hs.invariant hcell
    have hcleared (other : ℕ) : s'.handles.cell (.root other) =
        (s.cleared (.root index) handle.kind).handles.cell (.root other) := hlater.cell_eq (by simp)
    refine ⟨s', reset_apply hs.invariant hcell hrun hlater rfl,
      sound_of_cleared hs hcell hinv hlater, hlater.created, fun object index ↦ hlater.cell_eq_or _,
      fun other hother ↦ ?_, ?_⟩
    · rw [hcleared]
      exact if_neg fun heq ↦ hother (HandleName.root.inj heq)
    · rintro other rfl handle' hcell'
      refine ⟨handle.kind, ?_⟩
      rw [hcleared, State.cleared, Heap.cell_store, if_pos rfl] at hcell'
      exact (Option.some.inj hcell').symm

/-- Any number of variables are given up, one after another. -/
theorem discards_run (hs : Sound s) (order : List Discard)
    (hnodup : (order.map Discard.index).Nodup)
    (hlive : ∀ discard ∈ order, s.handles.cell (.root discard.index) ≠ none) :
    ∃ s', run (order.map Discard.op) s = some s' ∧
      Faded (· ∈ order.map Discard.index) s s' := by
  induction order generalizing s with
  | nil => exact ⟨s, rfl, by simpa using Faded.refl hs⟩
  | cons discard order ih =>
    rw [List.map_cons, List.nodup_cons] at hnodup
    obtain ⟨s₁, hrun₁, hfaded₁⟩ := discard_run hs discard (hlive discard (by simp))
    have hlive₁ : ∀ other ∈ order, s₁.handles.cell (.root other.index) ≠ none := by
      intro other hmem
      rw [hfaded₁.kept other.index]
      · exact hlive other (List.mem_cons_of_mem _ hmem)
      · intro heq
        exact hnodup.1 (heq ▸ List.mem_map_of_mem hmem)
    obtain ⟨s₂, hrun₂, hfaded₂⟩ := ih hfaded₁.sound hnodup.2 hlive₁
    refine ⟨s₂, (run_cons (discard.valid (hlive discard (by simp))) hrun₁).trans hrun₂, ?_⟩
    simpa using hfaded₁.trans hfaded₂

end Discards

/-! ### Reclamation -/

section Reclaim

variable {done : ℕ → Prop}

/-- Objects are ordered by ownership when it has no cycle. -/
theorem State.Acyclic.wellFounded (hacyclic : s.Acyclic) : WellFounded
    fun owner object : Fin s.created ↦ Relation.TransGen s.Owns owner object :=
  haveI : IsTrans (Fin s.created) fun owner object ↦ Relation.TransGen s.Owns owner object :=
    ⟨fun _ _ _ ↦ Relation.TransGen.trans⟩
  haveI : Std.Irrefl fun owner object : Fin s.created ↦ Relation.TransGen s.Owns owner object :=
    ⟨fun object ↦ hacyclic object⟩
  Finite.wellFounded_of_trans_of_irrefl _

/-- When every variable was given up, the owner of a handle that still is attached is an object
that is left. -/
theorem Faded.exists_owner (h : Faded done s s')
    (hall : ∀ index, s.handles.cell (.root index) ≠ none → done index)
    (hcell : s'.handles.cell name = some handle) (hattached : ∀ kind, handle ≠ .empty kind) :
    ∃ object index, name = .field object index ∧ object < s.created ∧
      (s'.blocks object).useCnt ≠ 0 ∧ s.handles.cell name = some handle := by
  cases name with
  | root index =>
    by_cases hdone : done index
    · obtain ⟨kind, rfl⟩ := h.gone index hdone handle hcell
      exact absurd rfl (hattached kind)
    · rw [h.kept index hdone] at hcell
      exact absurd (hall index (by simp [hcell])) hdone
  | temporary =>
    rw [h.sound.temporary] at hcell
    cases hcell
  | field object index =>
    obtain ⟨hlt, -, halive | hdying⟩ := h.sound.invariant.field object index handle hcell
    · refine ⟨object, index, rfl, h.created ▸ hlt, fun hzero ↦ ?_, ?_⟩
      · rw [h.sound.invariant.destroyed object hlt, if_pos hzero] at halive
        cases halive
      · rcases h.field object index with heq | hnone
        · rw [← heq, hcell]
        · rw [hnone] at hcell
          cases hcell
    · cases hdying

/-- When every variable was given up, no object is left. The induction is on the owners. -/
theorem Faded.none_left (h : Faded done s s') (hacyclic : s.Acyclic)
    (hall : ∀ index, s.handles.cell (.root index) ≠ none → done index) (object : Fin s.created) :
    (s'.blocks object).useCnt = 0 := by
  induction object using hacyclic.wellFounded.induction with
  | _ object ih =>
    by_contra hleft
    rw [h.sound.invariant.use object, State.attached, List.countP_nil, Nat.add_zero] at hleft
    obtain ⟨name, handle, hcell, hstrong⟩ := Heap.exists_of_count_ne_zero hleft
    have hattached (kind : HandleKind) : handle ≠ .empty kind := by
      rintro rfl
      rw [strongTo_empty] at hstrong
      cases hstrong
    obtain ⟨owner, index, rfl, hlt, hsurvives, hstart⟩ := h.exists_owner hall hcell hattached
    exact hsurvives (ih ⟨owner, hlt⟩ (.single ⟨index, handle, hstart, hstrong⟩))

/-- Every object is destroyed once and every control block is freed once, in whatever order the
variables are destroyed or reset. -/
theorem roots_discarded (hreach : Reachable s) (hacyclic : s.Acyclic) (order : List Discard)
    (hnodup : (order.map Discard.index).Nodup)
    (hroots : ∀ index, index ∈ order.map Discard.index ↔ s.handles.cell (.root index) ≠ none) :
    ∃ s', run (order.map Discard.op) s = some s' ∧ s'.created = s.created ∧
      ∀ block < s.created, (s'.objects block).destroyed = 1 ∧ (s'.blocks block).freed = 1 := by
  obtain ⟨s', hrun, hfaded⟩ := discards_run (sound_of_reachable hreach) order hnodup
    fun discard hmem ↦ (hroots discard.index).mp (List.mem_map_of_mem hmem)
  have hall (index : ℕ) (hlive : s.handles.cell (.root index) ≠ none) :
      index ∈ order.map Discard.index := (hroots index).mpr hlive
  have hinv := hfaded.sound.invariant
  refine ⟨s', hrun, hfaded.created, fun block hlt ↦ ?_⟩
  have hlt' : block < s'.created := hfaded.created ▸ hlt
  have huse := hfaded.none_left hacyclic hall ⟨block, hlt⟩
  have hweak : (s'.blocks block).weakCnt = 0 := by
    by_contra hleft
    rw [hinv.weak block, State.attached, List.countP_nil, Nat.add_zero] at hleft
    obtain ⟨name, handle, hcell, hweakTo⟩ := Heap.exists_of_count_ne_zero hleft
    have hattached (kind : HandleKind) : handle ≠ .empty kind := by
      rintro rfl
      rw [weakTo_empty] at hweakTo
      cases hweakTo
    obtain ⟨owner, index, -, hlt, hsurvives, -⟩ := hfaded.exists_owner hall hcell hattached
    exact hsurvives (hfaded.none_left hacyclic hall ⟨owner, hlt⟩)
  constructor
  · rw [hinv.destroyed block hlt', if_pos huse]
  · rw [hinv.freed block hlt', if_pos ⟨huse, hweak, List.not_mem_nil⟩]

/-- An object that observes itself, and whose variable is reset. -/
theorem roots_discarded_observer :
    ∃ s ∈ run [.constructRaw 0 [.weak], .weakAssign (.field 0 0) (.root 0)] .start,
      ∃ s', run ([Discard.reset 0].map Discard.op) s = some s' ∧ s'.created = s.created ∧
        ∀ block < s.created, (s'.objects block).destroyed = 1 ∧ (s'.blocks block).freed = 1 := by
  obtain ⟨s, hrun, hroot, hlive⟩ :
      ∃ s ∈ run [.constructRaw 0 [.weak], .weakAssign (.field 0 0) (.root 0)] .start,
        s.handles.cell (.root 0) ≠ none ∧ ∀ name ∈ s.handles.live,
          name = .root 0 ∨ s.kind? name = some .weak ∧ name.isRoot = false := by
    decide +kernel
  have hlive' {name : HandleName} (hcell : s.handles.cell name ≠ none) :=
    hlive name ((s.handles.mem_live name).mpr (Option.isSome_iff_ne_none.mpr hcell))
  refine ⟨s, hrun, roots_discarded (.of_run .start hrun)
    (acyclic_of_weak fun object index hkind ↦ ?_) [.reset 0]
    (by decide) fun index ↦ ⟨fun hmem ↦ ?_, fun hcell ↦ ?_⟩⟩
  · have hcell : s.handles.cell (.field object index) ≠ none := by
      intro hnone
      rw [State.kind?, hnone] at hkind
      cases hkind
    rcases hlive' hcell with hname | ⟨hweak, -⟩
    · cases hname
    · rw [hkind] at hweak
      cases hweak
  · rw [List.mem_singleton.mp hmem]
    exact hroot
  · rcases hlive' hcell with hname | ⟨-, hfield⟩
    · cases hname
      exact List.mem_singleton_self _
    · cases hfield

end Reclaim

end StudStuff.SharedPtr
