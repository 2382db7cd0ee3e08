import StudStuff.Lib.Transitions
import StudStuff.SharedPtr.Reclamation

/-!
# What leaks

When every variable is destroyed or reset, in any order, the objects that are left are exactly those
that are owned, directly or not, from within a cycle of strong references (`BehindCycle`), and the
control blocks that are left are theirs and those that they observe. What is behind a cycle is
spared by every discard, since its owner always is behind the cycle as well (`Spared`). What is left
has an owner that is left, and so on without end, which leads to a cycle.
-/

set_option autoImplicit false
set_option relaxedAutoImplicit false

namespace StudStuff.SharedPtr

open Lib

variable {s s' s₁ s₂ : State} {name : HandleName} {object : ℕ}

/-! ### Cycles -/

section Cycles

/-- The object is owned, directly or not, from within a cycle of strong references. -/
def State.BehindCycle (s : State) (object : ℕ) : Prop :=
  ∃ member, Relation.TransGen s.Owns member member ∧ Relation.ReflTransGen s.Owns member object

/-- A field of one object is a `WeakPtr` to another. -/
def State.Observes (s : State) (observer object : ℕ) : Prop :=
  ∃ index handle, s.handles.cell (.field observer index) = some handle ∧
    handle.weakTo object = true

/-- What is behind a cycle has an owner that is. -/
theorem State.BehindCycle.exists_owner (h : s.BehindCycle object) :
    ∃ owner, s.Owns owner object ∧ s.BehindCycle owner := by
  obtain ⟨member, hcycle, hpath⟩ := h
  rcases hpath.cases_tail with rfl | ⟨owner, hpath', howns⟩
  · obtain ⟨owner, hpath', howns⟩ := Relation.TransGen.tail'_iff.mp hcycle
    exact ⟨owner, howns, _, hcycle, hpath'⟩
  · exact ⟨owner, howns, member, hcycle, hpath'⟩

/-- What is behind a cycle has not been destroyed. -/
theorem State.BehindCycle.alive (hs : Sound s) (h : s.BehindCycle object) :
    object < s.created ∧ (s.objects object).destroyed = 0 := by
  obtain ⟨owner, ⟨index, handle, hcell, hstrong⟩, -⟩ := h.exists_owner
  have huse := hs.invariant.useCnt_ne_zero hcell hstrong
  have hcreated := (hs.invariant.usable (Or.inl huse)).1
  exact ⟨hcreated, by rw [hs.invariant.destroyed object hcreated, if_neg huse]⟩

end Cycles

/-! ### What is spared -/

section Spared

/-- The objects behind a cycle live on, with their fields as they were. -/
structure Spared (s s₁ : State) : Prop where
  alive : ∀ object, s.BehindCycle object → (s₁.objects object).destroyed = 0
  field : ∀ object index, s.BehindCycle object →
    s₁.handles.cell (.field object index) = s.handles.cell (.field object index)

theorem Spared.refl (hs : Sound s) : Spared s s :=
  ⟨fun _ hbehind ↦ (hbehind.alive hs).2, fun _ _ _ ↦ rfl⟩

/-- The region of what is not behind a cycle. -/
def Spared.region (h : Spared s s₁) : Region s₁ where
  doomed object := ¬s.BehindCycle object
  lost name := ∀ object index, name = .field object index → ¬s.BehindCycle object
  fields := by
    rintro object index hdoomed _ _ ⟨⟩
    exact hdoomed
  closed object _ hlost hbehind := by
    obtain ⟨owner, ⟨index, handle, hcell, hstrong⟩, howner⟩ := hbehind.exists_owner
    rw [← h.field owner index howner] at hcell
    exact hlost _ handle hcell hstrong owner index rfl howner

/-- Releases spare what is behind a cycle. -/
theorem Spared.later (h : Spared s s₁) {taken : HandleName → Prop} (hlater : Later taken s₁ s₂)
    (htaken : ∀ object index, ¬taken (.field object index)) : Spared s s₂ := by
  have hwithin : Within h.region s₂ := by
    refine hlater.within h.region (fun name hname object index heq ↦ ?_) (.refl _)
    exact absurd hname (heq ▸ htaken object index)
  refine ⟨fun object hbehind ↦ ?_, fun object index hbehind ↦ ?_⟩
  · by_contra hdestroyed
    rcases hwithin.doomed object hdestroyed with hbefore | hdoomed
    · exact hbefore (h.alive object hbehind)
    · exact hdoomed hbehind
  · rcases hwithin.cell (.field object index) with heq | ⟨-, hlost⟩
    · exact heq.trans (h.field object index hbehind)
    · exact absurd hbehind (hlost object index rfl)

/-- One variable is given up. -/
theorem Spared.discard (h : Spared s s₁) (hs : Sound s₁) (discard : Discard)
    (hlive : s₁.handles.cell (.root discard.index) ≠ none)
    (hexec : exec discard.op s₁ = .ok () s₂) : Spared s s₂ := by
  obtain ⟨handle, hcell⟩ := Option.ne_none_iff_exists'.mp hlive
  cases discard with
  | destroy index =>
    obtain ⟨s', hrun, -, hlater, -, -⟩ := destroy_run hs.invariant hcell (by simp)
    cases hrun.symm.trans hexec
    exact h.later hlater (by simp)
  | reset index =>
    obtain ⟨s', hrun, -, hlater⟩ := cleared_run hs.invariant hcell
    cases (reset_apply hs.invariant hcell hrun hlater rfl).symm.trans hexec
    have hcleared : Spared s (s₁.cleared (.root index) handle.kind) := by
      refine ⟨h.alive, fun object index' hbehind ↦ ?_⟩
      rw [State.cleared, Heap.cell_store, if_neg HandleName.noConfusion]
      exact h.field object index' hbehind
    exact hcleared.later hlater fun _ _ ↦ id

/-- Any number of variables are given up. -/
theorem Spared.discards (h : Spared s s₁) (hs : Sound s₁) (order : List Discard)
    (hrun : run (order.map Discard.op) s₁ = some s₂) : Spared s s₂ := by
  induction order generalizing s₁ with
  | nil =>
    cases hrun
    exact h
  | cons discard order ih =>
    rw [List.map_cons, run] at hrun
    split_ifs at hrun with hvalid
    have hlive : s₁.handles.cell (.root discard.index) ≠ none := by
      intro hnone
      have hkind : s₁.kind? (.root discard.index) = none := kind?_eq_none.mpr hnone
      cases discard with
      | destroy index => exact hvalid hkind
      | reset index =>
        rcases hvalid with hweak | ⟨hshared, -⟩
        · cases hkind.symm.trans hweak
        · cases hkind.symm.trans hshared
    cases hexec : exec discard.op s₁ with
    | error reason s' =>
      rw [hexec] at hrun
      cases hrun
    | ok value s' =>
      rw [hexec] at hrun
      exact ih (h.discard hs discard hlive hexec) (hs.step hvalid hexec) hrun

end Spared

/-! ### What is left -/

section Left

variable {done : ℕ → Prop}

/-- When every variable was given up, what is left is behind a cycle. -/
theorem Faded.behindCycle (h : Faded done s s')
    (hall : ∀ index, s.handles.cell (.root index) ≠ none → done index)
    (hleft : (s'.blocks object).useCnt ≠ 0) : s.BehindCycle object := by
  have hfinite : Finite {object // (s'.blocks object).useCnt ≠ 0} := by
    refine Set.Finite.subset (Set.finite_lt_nat s'.created) fun object hleft ↦ ?_
    exact (h.sound.invariant.usable (Or.inl hleft)).1
  have hback : ∀ object, (s'.blocks object).useCnt ≠ 0 →
      ∃ owner, (s'.blocks owner).useCnt ≠ 0 ∧ s.Owns owner object := by
    intro object hleft
    rw [h.sound.invariant.use object, State.attached, List.countP_nil, Nat.add_zero] at hleft
    obtain ⟨name, handle, hcell, hstrong⟩ := Heap.exists_of_count_ne_zero hleft
    have hattached (kind : HandleKind) : handle ≠ .empty kind := by
      rintro rfl
      rw [strongTo_empty] at hstrong
      cases hstrong
    obtain ⟨owner, index, rfl, -, hsurvives, hstart⟩ := h.exists_owner hall hcell hattached
    exact ⟨owner, hsurvives, index, handle, hstart, hstrong⟩
  exact exists_cycle_behind hback hleft

/-- When every variable was given up, an object whose block still is observed is observed from
behind a cycle. -/
theorem Faded.observed (h : Faded done s s')
    (hall : ∀ index, s.handles.cell (.root index) ≠ none → done index)
    (hleft : (s'.blocks object).weakCnt ≠ 0) :
    ∃ observer, s.BehindCycle observer ∧ s.Observes observer object := by
  rw [h.sound.invariant.weak object, State.attached, List.countP_nil, Nat.add_zero] at hleft
  obtain ⟨name, handle, hcell, hweak⟩ := Heap.exists_of_count_ne_zero hleft
  have hattached (kind : HandleKind) : handle ≠ .empty kind := by
    rintro rfl
    rw [weakTo_empty] at hweak
    cases hweak
  obtain ⟨observer, index, rfl, -, hsurvives, hstart⟩ := h.exists_owner hall hcell hattached
  exact ⟨observer, h.behindCycle hall hsurvives, index, handle, hstart, hweak⟩

/-- The objects and the control blocks that are left after all variables were given up. -/
structure Leaks (s s' : State) : Prop where
  created : s'.created = s.created
  object : ∀ object < s.created, s.BehindCycle object ∧ (s'.objects object).destroyed = 0 ∨
    ¬s.BehindCycle object ∧ (s'.objects object).destroyed = 1
  block : ∀ block < s.created,
    (s.BehindCycle block ∨ ∃ observer, s.BehindCycle observer ∧ s.Observes observer block) ∧
        (s'.blocks block).freed = 0 ∨
      (¬s.BehindCycle block ∧ ∀ observer, s.BehindCycle observer → ¬s.Observes observer block) ∧
        (s'.blocks block).freed = 1

/-- In whatever order the variables are destroyed or reset, the objects behind a cycle of strong
references leak, with their control blocks and those that they observe, and every other object is
destroyed once and every other control block is freed once. -/
theorem leaks_exactly (hreach : Reachable s) (order : List Discard)
    (hnodup : (order.map Discard.index).Nodup)
    (hroots : ∀ index, index ∈ order.map Discard.index ↔ s.handles.cell (.root index) ≠ none) :
    ∃ s', run (order.map Discard.op) s = some s' ∧ Leaks s s' := by
  have hs := sound_of_reachable hreach
  obtain ⟨s', hrun, hfaded⟩ := discards_run hs order hnodup
    fun discard hmem ↦ (hroots discard.index).mp (List.mem_map_of_mem hmem)
  have hall (index : ℕ) (hlive : s.handles.cell (.root index) ≠ none) :
      index ∈ order.map Discard.index := (hroots index).mpr hlive
  have hspared := (Spared.refl hs).discards hs order hrun
  have hinv := hfaded.sound.invariant
  refine ⟨s', hrun, hfaded.created, fun object hlt ↦ ?_, fun block hlt ↦ ?_⟩
  · have hdestroyed := hinv.destroyed object (hfaded.created ▸ hlt)
    by_cases hbehind : s.BehindCycle object
    · exact Or.inl ⟨hbehind, hspared.alive object hbehind⟩
    · rw [if_pos (not_not.mp (mt (hfaded.behindCycle hall) hbehind))] at hdestroyed
      exact Or.inr ⟨hbehind, hdestroyed⟩
  · have hfreed := hinv.freed block (hfaded.created ▸ hlt)
    by_cases hleft : s.BehindCycle block ∨
        ∃ observer, s.BehindCycle observer ∧ s.Observes observer block
    · rw [if_neg] at hfreed
      · exact Or.inl ⟨hleft, hfreed⟩
      rintro ⟨huse, hweak, -⟩
      rcases hleft with hbehind | ⟨observer, hbehind, index, handle, hcell, hobserves⟩
      · have halive := hspared.alive block hbehind
        rw [hinv.destroyed block (hfaded.created ▸ hlt), if_pos huse] at halive
        cases halive
      · rw [← hspared.field observer index hbehind] at hcell
        exact hinv.weakCnt_ne_zero hcell hobserves hweak
    · rw [not_or, not_exists] at hleft
      have huse := not_not.mp (mt (hfaded.behindCycle hall) hleft.1)
      have hweak : (s'.blocks block).weakCnt = 0 := by
        by_contra hne
        obtain ⟨observer, hobserver⟩ := hfaded.observed hall hne
        exact hleft.2 observer hobserver
      rw [if_pos ⟨huse, hweak, List.not_mem_nil⟩] at hfreed
      exact Or.inr ⟨⟨hleft.1, fun observer hbehind hobserves ↦
        hleft.2 observer ⟨hbehind, hobserves⟩⟩, hfreed⟩

/-- An object that owns itself observes another one, and both variables are given up. -/
theorem leaks_exactly_cycle :
    ∃ s ∈ run [.constructRaw 0 [.shared, .weak], .copyAssign (.field 0 0) (.root 0),
      .constructRaw 1 [], .weakAssign (.field 0 1) (.root 1)] .start,
        ∃ s', run ([Discard.destroy 0, .reset 1].map Discard.op) s = some s' ∧ Leaks s s' := by
  obtain ⟨s, hrun, hroots, hlive⟩ :
      ∃ s ∈ run [.constructRaw 0 [.shared, .weak], .copyAssign (.field 0 0) (.root 0),
        .constructRaw 1 [], .weakAssign (.field 0 1) (.root 1)] .start,
          (s.handles.cell (.root 0) ≠ none ∧ s.handles.cell (.root 1) ≠ none) ∧
            ∀ name ∈ s.handles.live, name = .root 0 ∨ name = .root 1 ∨ name.isRoot = false := by
    decide +kernel
  refine ⟨s, hrun, leaks_exactly (.of_run .start hrun) [.destroy 0, .reset 1] (by decide)
    fun index ↦ ⟨fun hmem ↦ ?_, fun hcell ↦ ?_⟩⟩
  · rcases List.mem_pair.mp hmem with rfl | rfl
    · exact hroots.1
    · exact hroots.2
  · have hmem := (s.handles.mem_live (.root index)).mpr (Option.isSome_iff_ne_none.mpr hcell)
    rcases hlive _ hmem with hname | hname | hfield
    · cases hname
      exact List.mem_cons_self ..
    · cases hname
      exact List.mem_cons_of_mem _ (List.mem_singleton_self _)
    · cases hfield

end Left

end StudStuff.SharedPtr
