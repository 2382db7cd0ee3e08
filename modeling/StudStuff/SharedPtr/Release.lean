import StudStuff.SharedPtr.Invariant

/-!
# Nested releases keep the invariant

`release_run` says what `Release` does in the middle of any number of releases around it: it
returns, it keeps the invariant, and the state it leaves is `Later`. Its proof is an induction on
the number of objects that are not destroyed yet.

What a release destroys is bounded by a `Region` of an earlier state: a set of objects and of
handles such that an object all of whose owners are handles of the region belongs to it. A release
that starts within a region stays within it (`Later.within`). Two regions are used in this module
for what a release leaves alone, and a third one gives the exact set of objects that are destroyed.
-/

set_option autoImplicit false
set_option relaxedAutoImplicit false

namespace StudStuff.SharedPtr

open Lib

/-! ### Regions -/

/-- A set of objects, and of handles that contains theirs, to which an object belongs when all its
owners are handles of the set. -/
structure Region (start : State) where
  doomed : ℕ → Prop
  lost : HandleName → Prop
  fields : ∀ object index, doomed object → lost (.field object index)
  closed : ∀ object, (start.objects object).destroyed = 0 →
    (∀ name handle, start.handles.cell name = some handle → handle.strongTo object = true →
      lost name) → doomed object

/-- Since the start only handles and objects of a region were destroyed. -/
structure Within {start : State} (region : Region start) (s : State) : Prop where
  cell : ∀ name, s.handles.cell name = start.handles.cell name ∨
    s.handles.cell name = none ∧ region.lost name
  alive : ∀ object, (start.objects object).destroyed ≠ 0 → (s.objects object).destroyed ≠ 0
  doomed : ∀ object, (s.objects object).destroyed ≠ 0 →
    (start.objects object).destroyed ≠ 0 ∨ region.doomed object

/-- A state that nested releases lead to, when the lifetime of some more handles ended. -/
structure Later (taken : HandleName → Prop) (s s' : State) : Prop where
  created : s'.created = s.created
  fieldCount : ∀ object, (s'.objects object).fieldCount = (s.objects object).fieldCount
  within : ∀ {start : State} (region : Region start), (∀ name, taken name → region.lost name) →
    Within region s → Within region s'

/-- The region of everything. -/
def Region.all (start : State) : Region start where
  doomed _ := True
  lost _ := True
  fields _ _ _ := trivial
  closed _ _ _ := trivial

/-- The region of the objects that are not destroyed, and of their handles. -/
def Region.living (start : State) : Region start where
  doomed object := (start.objects object).destroyed = 0
  lost name := ∃ object index, name = .field object index ∧ (start.objects object).destroyed = 0
  fields object index halive := ⟨object, index, rfl, halive⟩
  closed _ halive _ := halive

section Later

variable {s s' s'' : State} {taken : HandleName → Prop}

theorem Within.refl {start : State} (region : Region start) : Within region start :=
  ⟨fun _ ↦ Or.inl rfl, fun _ ↦ id, fun _ ↦ Or.inl⟩

theorem Later.refl (taken : HandleName → Prop) (s : State) : Later taken s s :=
  ⟨rfl, fun _ ↦ rfl, fun _ _ h ↦ h⟩

theorem Later.trans (h : Later taken s s') (h' : Later taken s' s'') : Later taken s s'' :=
  ⟨h'.created.trans h.created, fun object ↦ (h'.fieldCount object).trans (h.fieldCount object),
    fun region htaken hwithin ↦ h'.within region htaken (h.within region htaken hwithin)⟩

theorem Later.mono {taken' : HandleName → Prop} (h : Later taken s s')
    (hsub : ∀ name, taken name → taken' name) : Later taken' s s' :=
  ⟨h.created, h.fieldCount, fun region htaken ↦ h.within region fun name hname ↦
    htaken name (hsub name hname)⟩

/-- A change of blocks only. -/
theorem Later.of_blocks (hhandles : s'.handles = s.handles) (hcreated : s'.created = s.created)
    (hobjects : s'.objects = s.objects) : Later taken s s' := by
  refine ⟨hcreated, fun object ↦ by rw [hobjects], fun region _ hwithin ↦ ⟨?_, ?_, ?_⟩⟩
  · rw [hhandles]
    exact hwithin.cell
  · rw [hobjects]
    exact hwithin.alive
  · rw [hobjects]
    exact hwithin.doomed

/-- Objects stay destroyed. -/
theorem Later.destroyed (h : Later taken s s') {object : ℕ}
    (hdestroyed : (s.objects object).destroyed ≠ 0) : (s'.objects object).destroyed ≠ 0 :=
  (h.within (.all s) (fun _ _ ↦ trivial) (.refl _)).alive object hdestroyed

/-- A handle holds what it held, or is gone. -/
theorem Later.cell_eq_or (h : Later taken s s') (name : HandleName) :
    s'.handles.cell name = s.handles.cell name ∨ s'.handles.cell name = none :=
  ((h.within (.all s) (fun _ _ ↦ trivial) (.refl _)).cell name).imp_right And.left

/-- A handle lives on unless it is taken or belongs to an object that is destroyed on the way. -/
theorem Later.cell_eq (h : Later (fun _ ↦ False) s s') {name : HandleName}
    (hname : ∀ object index, name = .field object index → (s.objects object).destroyed ≠ 0) :
    s'.handles.cell name = s.handles.cell name := by
  rcases (h.within (.living s) (fun _ ↦ False.elim) (.refl _)).cell name with heq | ⟨-, hlost⟩
  · exact heq
  · obtain ⟨object, index, rfl, halive⟩ := hlost
    exact absurd halive (hname object index rfl)

/-- The number of objects that are not destroyed. -/
def State.aliveCount (s : State) : ℕ :=
  {object ∈ Finset.range s.created | (s.objects object).destroyed = 0}.card

theorem Later.aliveCount_le (h : Later taken s s') : s'.aliveCount ≤ s.aliveCount := by
  apply Finset.card_le_card
  intro object hmem
  rw [Finset.mem_filter, h.created] at hmem
  rw [Finset.mem_filter]
  refine ⟨hmem.1, ?_⟩
  by_contra hdestroyed
  exact h.destroyed hdestroyed hmem.2

end Later

/-! ### Changes of one block -/

/-- The state with one block changed. -/
def State.withBlock (s : State) (block : ℕ) (cb : Block) : State :=
  { s with blocks := Function.update s.blocks block cb }

section Blocks

variable {s : State} {dying : List ℕ} {owed owed' : List Handle} {block : ℕ} {cb : Block}

@[simp] theorem blocks_withBlock_self (s : State) (block : ℕ) (cb : Block) :
    (s.withBlock block cb).blocks block = cb :=
  Function.update_self ..

@[simp] theorem blocks_withBlock_of_ne (s : State) {block other : ℕ} (cb : Block)
    (hother : other ≠ block) : (s.withBlock block cb).blocks other = s.blocks other :=
  Function.update_of_ne hother ..

@[simp] theorem withBlock_withBlock (s : State) (block : ℕ) (cb cb' : Block) :
    (s.withBlock block cb).withBlock block cb' = s.withBlock block cb' := by
  simp only [State.withBlock, Function.update_idem]

/-- A block stays usable when it is changed and not freed. -/
theorem usable_withBlock (husable : block < s.created ∧ (s.blocks block).freed = 0)
    (hfreed : cb.freed = (s.blocks block).freed) :
    block < (s.withBlock block cb).created ∧ ((s.withBlock block cb).blocks block).freed = 0 := by
  rw [blocks_withBlock_self, hfreed]
  exact husable

theorem readBlock_apply (husable : block < s.created ∧ (s.blocks block).freed = 0) :
    readBlock block s = .ok (s.blocks block) s :=
  if_pos husable

theorem modifyBlock_apply (husable : block < s.created ∧ (s.blocks block).freed = 0)
    (change : Block → Block) :
    modifyBlock block change s = .ok () (s.withBlock block (change (s.blocks block))) :=
  if_pos husable

theorem noteUnderflow_apply {count : ℕ} (hcount : count ≠ 0) (s : State) :
    noteUnderflow count s = .ok () s := by
  rw [noteUnderflow, if_neg hcount, pure_apply]

/-- The invariant after a change of counters that does not bring the strong one to zero. -/
theorem Invariant.setBlock (h : Invariant s dying owed) (hblock : block < s.created)
    (hotherUse : ∀ other ≠ block, s.attached owed' (Handle.strongTo other) =
      s.attached owed (Handle.strongTo other))
    (hotherWeak : ∀ other ≠ block, s.attached owed' (Handle.weakTo other) =
      s.attached owed (Handle.weakTo other))
    (huse : cb.useCnt = s.attached owed' (Handle.strongTo block))
    (hweak : cb.weakCnt = s.attached owed' (Handle.weakTo block))
    (hzero : cb.useCnt = 0 ↔ (s.blocks block).useCnt = 0)
    (hdestroying : cb.isDestroying = (s.blocks block).isDestroying)
    (hfreed : cb.freed = if cb.useCnt = 0 ∧ cb.weakCnt = 0 ∧ block ∉ dying then 1 else 0)
    (hptr : cb.ptr = (s.blocks block).ptr) : Invariant (s.withBlock block cb) dying owed' := by
  refine ⟨fun other ↦ ?_, fun other ↦ ?_, fun other hother ↦ ?_, fun other hother ↦ ?_,
    fun other ↦ ?_, fun other hother ↦ ⟨(h.dead other hother).1, ?_⟩, fun other hother ↦ ?_,
    fun other hother ↦ ?_, h.field, h.fields, h.underflow⟩
  · by_cases hsame : other = block
    · rw [hsame, blocks_withBlock_self]
      exact huse
    · rw [blocks_withBlock_of_ne _ _ hsame]
      exact (h.use other).trans (hotherUse other hsame).symm
  · by_cases hsame : other = block
    · rw [hsame, blocks_withBlock_self]
      exact hweak
    · rw [blocks_withBlock_of_ne _ _ hsame]
      exact (h.weak other).trans (hotherWeak other hsame).symm
  · have hsame : other ≠ block := (Nat.lt_of_lt_of_le hblock hother).ne'
    rw [blocks_withBlock_of_ne _ _ hsame]
    exact h.uncreated other hother
  · by_cases hsame : other = block
    · rw [hsame, blocks_withBlock_self]
      simp only [hzero]
      exact h.destroyed block hblock
    · rw [blocks_withBlock_of_ne _ _ hsame]
      exact h.destroyed other hother
  · by_cases hsame : other = block
    · rw [hsame, blocks_withBlock_self, hdestroying]
      exact h.destroying block
    · rw [blocks_withBlock_of_ne _ _ hsame]
      exact h.destroying other
  · by_cases hsame : other = block
    · rw [hsame, blocks_withBlock_self, hzero]
      exact (h.dead block (hsame ▸ hother)).2
    · rw [blocks_withBlock_of_ne _ _ hsame]
      exact (h.dead other hother).2
  · by_cases hsame : other = block
    · rw [hsame, blocks_withBlock_self]
      exact hfreed
    · rw [blocks_withBlock_of_ne _ _ hsame]
      exact h.freed other hother
  · by_cases hsame : other = block
    · rw [hsame, blocks_withBlock_self, hptr]
      simp only [hzero]
      exact h.ptr block hblock
    · rw [blocks_withBlock_of_ne _ _ hsame]
      exact h.ptr other hother

end Blocks

/-! ### Releasing a weak reference -/

section Weak

variable {s : State} {dying : List ℕ} {block : ℕ}

/-- `ReleaseWeak` frees the block with its last reference, unless its object still is being
destroyed. -/
theorem releaseWeak_run (h : Invariant s dying [.weak (some block)]) :
    ∃ cb, releaseWeak block s = .ok () (s.withBlock block cb) ∧
      Invariant (s.withBlock block cb) dying [] := by
  have hcount := h.weak block
  rw [attached_cons, if_pos (by simp [Handle.weakTo])] at hcount
  have hpositive : (s.blocks block).weakCnt ≠ 0 := by omega
  have husable := h.usable (Or.inr hpositive)
  have hdecrement : decrement (s.blocks block).weakCnt = s.attached [] (Handle.weakTo block) := by
    rw [decrement, if_neg hpositive, hcount, Nat.add_sub_cancel]
  have hfreed := h.freed block husable.1
  have hset (freed : ℕ) (hfreed : freed = if (s.blocks block).useCnt = 0 ∧
      decrement (s.blocks block).weakCnt = 0 ∧ block ∉ dying then 1 else 0) :
      Invariant (s.withBlock block { s.blocks block with
        weakCnt := decrement (s.blocks block).weakCnt
        freed := freed }) dying [] := by
    refine h.setBlock husable.1 (fun other hother ↦ ?_) (fun other hother ↦ ?_) ?_ hdecrement
      Iff.rfl rfl hfreed rfl
    · rw [attached_cons, if_neg (by simp [Handle.strongTo])]
      rfl
    · rw [attached_cons, if_neg (by simpa [Handle.weakTo] using hother.symm)]
      rfl
    · rw [h.use block, attached_cons, if_neg (by simp [Handle.strongTo])]
      rfl
  have hflag : (s.blocks block).isDestroying = false ↔ block ∉ dying := by
    rw [← h.destroying block, Bool.not_eq_true]
  unfold releaseWeak
  rw [bind_ok (readBlock_apply husable), bind_ok (noteUnderflow_apply hpositive s),
    bind_ok (modifyBlock_apply husable _)]
  rw [bind_ok (readBlock_apply (usable_withBlock husable (by rfl))), blocks_withBlock_self]
  by_cases hlast : decrement (s.blocks block).weakCnt = 0 ∧ (s.blocks block).useCnt = 0 ∧
      (s.blocks block).isDestroying = false
  · rw [if_pos hlast, destroyBlock, modifyBlock_apply (usable_withBlock husable (by rfl)),
      blocks_withBlock_self,
      withBlock_withBlock]
    refine ⟨_, rfl, hset _ ?_⟩
    rw [if_pos ⟨hlast.2.1, hlast.1, hflag.mp hlast.2.2⟩, husable.2]
  · rw [if_neg hlast, pure_apply]
    refine ⟨_, rfl, hset _ ?_⟩
    rw [if_neg, husable.2]
    rintro ⟨huse, hweak, hnot⟩
    exact hlast ⟨hweak, huse, hflag.mpr hnot⟩

end Weak

/-! ### The end of an object -/

section Condemned

variable {s : State} {dying : List ℕ} {block : ℕ} {ptr : Option ℕ}

/-- The state after a deleter has begun to run. -/
def State.marked (s : State) (object : ℕ) : State :=
  { s with
    objects := Function.update s.objects object
      { s.objects object with destroyed := (s.objects object).destroyed + 1 } }

theorem objects_marked_self (s : State) (object : ℕ) : (s.marked object).objects object =
    { s.objects object with destroyed := (s.objects object).destroyed + 1 } :=
  Function.update_self ..

theorem objects_marked_of_ne (s : State) {object other : ℕ} (hother : other ≠ object) :
    (s.marked object).objects other = s.objects other :=
  Function.update_of_ne hother ..

theorem markDestroyed_apply (object : ℕ) (s : State) :
    markDestroyed object s = .ok () (s.marked object) :=
  rfl

/-- The state in which the destructor of an object begins: its last reference was given up. -/
def State.condemned (s : State) (block : ℕ) : State :=
  (s.withBlock block { s.blocks block with useCnt := 0, isDestroying := true }).marked block

theorem blocks_condemned_self (s : State) (block : ℕ) : (s.condemned block).blocks block =
    { s.blocks block with useCnt := 0, isDestroying := true } :=
  Function.update_self ..

theorem blocks_condemned_of_ne (s : State) {block other : ℕ} (hother : other ≠ block) :
    (s.condemned block).blocks other = s.blocks other :=
  Function.update_of_ne hother ..

theorem objects_condemned_self (s : State) (block : ℕ) : (s.condemned block).objects block =
    { s.objects block with destroyed := (s.objects block).destroyed + 1 } :=
  objects_marked_self ..

theorem objects_condemned_of_ne (s : State) {object block : ℕ} (hother : object ≠ block) :
    (s.condemned block).objects object = s.objects object :=
  objects_marked_of_ne _ hother

@[simp] theorem fieldCount_condemned (s : State) (block object : ℕ) :
    ((s.condemned block).objects object).fieldCount = (s.objects object).fieldCount := by
  by_cases hsame : object = block
  · rw [hsame, objects_condemned_self]
  · rw [objects_condemned_of_ne s hsame]

/-- The block after its object was destroyed. -/
def Block.retired (cb : Block) : Block where
  useCnt := cb.useCnt
  weakCnt := cb.weakCnt
  isDestroying := false
  ptr := none
  freed := if cb.weakCnt = 0 then cb.freed + 1 else cb.freed

theorem Invariant.condemned (h : Invariant s dying [.shared (some block) ptr])
    (hlast : (s.blocks block).useCnt = 1) : Invariant (s.condemned block) (block :: dying) [] := by
  have hcreated : block < s.created := (h.usable (Or.inl (by omega))).1
  have huse := h.use block
  rw [attached_cons, if_pos (by simp [Handle.strongTo]), hlast] at huse
  have halive := h.destroyed block hcreated
  rw [if_neg (by omega)] at halive
  refine ⟨fun other ↦ ?_, fun other ↦ ?_, fun other hle ↦ ?_, fun other hlt ↦ ?_, fun other ↦ ?_,
    fun other hmem ↦ ?_, fun other hlt ↦ ?_, fun other hlt ↦ ?_, fun object index handle hcell ↦ ?_,
    fun object index hlt hliving hindex ↦ ?_, h.underflow⟩
  · by_cases hsame : other = block
    · rw [hsame, blocks_condemned_self]
      change 0 = s.attached [] _
      omega
    · rw [blocks_condemned_of_ne s hsame, h.use other, attached_cons,
        if_neg (by simpa [Handle.strongTo] using Ne.symm hsame)]
      rfl
  · have hweak := h.weak other
    rw [attached_cons, if_neg (by simp [Handle.weakTo])] at hweak
    by_cases hsame : other = block
    · rw [hsame, blocks_condemned_self]
      exact hsame ▸ hweak
    · rw [blocks_condemned_of_ne s hsame]
      exact hweak
  · have hsame : other ≠ block := (Nat.lt_of_lt_of_le hcreated hle).ne'
    rw [blocks_condemned_of_ne s hsame]
    exact h.uncreated other hle
  · by_cases hsame : other = block
    · rw [hsame, blocks_condemned_self, objects_condemned_self, if_pos rfl, halive]
    · rw [blocks_condemned_of_ne s hsame, objects_condemned_of_ne s hsame]
      exact h.destroyed other hlt
  · by_cases hsame : other = block
    · simp [hsame, blocks_condemned_self]
    · rw [blocks_condemned_of_ne s hsame, h.destroying other, List.mem_cons, or_iff_right hsame]
  · by_cases hsame : other = block
    · rw [hsame, blocks_condemned_self]
      exact ⟨hcreated, rfl⟩
    · rw [blocks_condemned_of_ne s hsame]
      exact h.dead other ((List.mem_cons.mp hmem).resolve_left hsame)
  · by_cases hsame : other = block
    · rw [hsame, blocks_condemned_self, if_neg (by simp)]
      exact (h.usable (Or.inl (by omega))).2
    · rw [blocks_condemned_of_ne s hsame, h.freed other hlt]
      simp [hsame]
  · by_cases hsame : other = block
    · rw [hsame, blocks_condemned_self, if_neg (by simp)]
      rw [h.ptr block hcreated, if_neg (by omega)]
    · rw [blocks_condemned_of_ne s hsame, h.ptr other hlt]
      simp [hsame]
  · obtain ⟨hlt, hindex, hdead⟩ := h.field object index handle hcell
    refine ⟨hlt, by rw [fieldCount_condemned]; exact hindex, ?_⟩
    by_cases hsame : object = block
    · exact Or.inr (by simp [hsame])
    · rw [objects_condemned_of_ne s hsame]
      exact hdead.imp id (List.mem_cons_of_mem _)
  · rw [fieldCount_condemned] at hindex
    by_cases hsame : object = block
    · rw [hsame, objects_condemned_self] at hliving
      cases hliving
    · rw [objects_condemned_of_ne s hsame] at hliving
      exact h.fields object index hlt hliving hindex

theorem Invariant.retired (h : Invariant s (block :: dying) []) (hnot : block ∉ dying)
    (hfields : ∀ index, s.handles.cell (.field block index) = none) :
    Invariant (s.withBlock block (s.blocks block).retired) dying [] := by
  obtain ⟨hcreated, huse⟩ := h.dead block (by simp)
  obtain ⟨-, hfreed⟩ := h.usable_of_dying (List.mem_cons_self : block ∈ block :: dying)
  have hdestroyed := h.destroyed block hcreated
  rw [if_pos huse] at hdestroyed
  refine ⟨fun other ↦ ?_, fun other ↦ ?_, fun other hle ↦ ?_, fun other hlt ↦ ?_, fun other ↦ ?_,
    fun other hmem ↦ ?_, fun other hlt ↦ ?_, fun other hlt ↦ ?_, fun object index handle hcell ↦ ?_,
    h.fields, h.underflow⟩
  · by_cases hsame : other = block
    · rw [hsame, blocks_withBlock_self]
      exact h.use block
    · rw [blocks_withBlock_of_ne _ _ hsame]
      exact h.use other
  · by_cases hsame : other = block
    · rw [hsame, blocks_withBlock_self]
      exact h.weak block
    · rw [blocks_withBlock_of_ne _ _ hsame]
      exact h.weak other
  · have hsame : other ≠ block := (Nat.lt_of_lt_of_le hcreated hle).ne'
    rw [blocks_withBlock_of_ne _ _ hsame]
    exact h.uncreated other hle
  · by_cases hsame : other = block
    · rw [hsame, blocks_withBlock_self]
      exact h.destroyed block hcreated
    · rw [blocks_withBlock_of_ne _ _ hsame]
      exact h.destroyed other hlt
  · by_cases hsame : other = block
    · simp [hsame, Block.retired, hnot]
    · rw [blocks_withBlock_of_ne _ _ hsame, h.destroying other, List.mem_cons, or_iff_right hsame]
  · have hsame : other ≠ block := fun heq ↦ hnot (heq ▸ hmem)
    rw [blocks_withBlock_of_ne _ _ hsame]
    exact h.dead other (List.mem_cons_of_mem _ hmem)
  · by_cases hsame : other = block
    · rw [hsame, blocks_withBlock_self, Block.retired, hfreed]
      simp [huse, hnot]
    · rw [blocks_withBlock_of_ne _ _ hsame, h.freed other hlt]
      simp [hsame]
  · by_cases hsame : other = block
    · rw [hsame, blocks_withBlock_self]
      exact (if_pos ⟨huse, hnot⟩).symm
    · rw [blocks_withBlock_of_ne _ _ hsame, h.ptr other hlt]
      simp [hsame]
  · obtain ⟨hlt, hindex, hdead⟩ := h.field object index handle hcell
    refine ⟨hlt, hindex, hdead.imp id fun hmem ↦ (List.mem_cons.mp hmem).resolve_left ?_⟩
    rintro rfl
    change s.handles.cell _ = _ at hcell
    rw [hfields index] at hcell
    cases hcell

end Condemned

/-! ### Destructors and nested releases -/

section Nested

variable {s : State} {dying : List ℕ} {releaser : ℕ → PtrM Unit} {bound : ℕ}

/-- A program that gives up one strong reference, while fewer than `bound` objects are left. -/
def Releases (releaser : ℕ → PtrM Unit) (bound : ℕ) : Prop :=
  ∀ (s : State) (dying : List ℕ) (block : ℕ) (ptr : Option ℕ),
    Invariant s dying [.shared (some block) ptr] → s.aliveCount < bound →
      ∃ s', releaser block s = .ok () s' ∧ Invariant s' dying [] ∧ Later (fun _ ↦ False) s s'

/-- Giving up the reference of a handle whose lifetime has ended. -/
theorem Releases.releaseCb (hreleaser : Releases releaser bound) {handle : Handle}
    (h : Invariant s dying [handle]) (hbound : s.aliveCount < bound) :
    ∃ s', SharedPtr.releaseCb releaser handle s = .ok () s' ∧ Invariant s' dying [] ∧
      Later (fun _ ↦ False) s s' := by
  have hunattached (hstrong : ∀ block, handle.strongTo block = false)
      (hweak : ∀ block, handle.weakTo block = false) : Invariant s dying [] :=
    h.of_owed (fun block ↦ by simp [hstrong]) fun block ↦ by simp [hweak]
  rcases handle with ⟨_ | block, ptr⟩ | ⟨_ | block⟩
  · exact ⟨s, rfl, hunattached (by simp [Handle.strongTo]) (by simp [Handle.weakTo]), .refl _ _⟩
  · exact hreleaser s dying block ptr h hbound
  · exact ⟨s, rfl, hunattached (by simp [Handle.strongTo]) (by simp [Handle.weakTo]), .refl _ _⟩
  · obtain ⟨cb, hrun, hinv⟩ := releaseWeak_run h
    exact ⟨_, hrun, hinv, .of_blocks rfl rfl rfl⟩

theorem takeHandle_apply {name : HandleName} {handle : Handle}
    (hcell : s.handles.cell name = some handle) :
    takeHandle name s = .ok handle { s with handles := s.handles.release name } := by
  rw [takeHandle, hcell]

/-- The destructor of a handle. -/
theorem Releases.destroyHandle (hreleaser : Releases releaser bound) (h : Invariant s dying [])
    {name : HandleName} {handle : Handle} (hcell : s.handles.cell name = some handle)
    (hname : ∀ object index, name = .field object index → (s.objects object).destroyed ≠ 0)
    (hbound : s.aliveCount < bound) :
    ∃ s', SharedPtr.destroyHandle releaser name s = .ok () s' ∧ Invariant s' dying [] ∧
      Later (· = name) s s' ∧ s'.handles.cell name = none ∧
        ∀ other ≠ name, (∀ object index, other = .field object index →
          (s.objects object).destroyed ≠ 0) → s'.handles.cell other = s.handles.cell other := by
  obtain ⟨s', hrun, hinv, hlater⟩ := hreleaser.releaseCb (h.take hcell hname) hbound
  have htaken : Later (· = name) s { s with handles := s.handles.release name } := by
    refine ⟨rfl, fun _ ↦ rfl, fun region hlost hwithin ↦ ⟨fun other ↦ ?_, hwithin.alive,
      hwithin.doomed⟩⟩
    rw [Heap.cell_release]
    split_ifs with hother
    · exact Or.inr ⟨rfl, hlost other hother⟩
    · exact hwithin.cell other
  refine ⟨s', (bind_ok (takeHandle_apply hcell)).trans hrun, hinv,
    htaken.trans (hlater.mono fun _ ↦ False.elim), ?_, fun other hother hdead ↦ ?_⟩
  · rw [hlater.cell_eq hname, Heap.cell_release, if_pos rfl]
  · rw [hlater.cell_eq hdead, Heap.cell_release, if_neg hother]

/-- Destroying the fields of an object. The induction is on the number of fields that are left. -/
theorem Releases.destroyFields (hreleaser : Releases releaser bound) {object : ℕ} (count : ℕ)
    (h : Invariant s dying []) (hdestroyed : (s.objects object).destroyed ≠ 0)
    (hfields : ∀ index, (s.handles.cell (.field object index)).isSome ↔ index < count)
    (hbound : s.aliveCount < bound) :
    ∃ s', SharedPtr.destroyFields releaser object count s = .ok () s' ∧ Invariant s' dying [] ∧
      Later (fun name ↦ ∃ index, name = .field object index) s s' ∧
        ∀ index, s'.handles.cell (.field object index) = none := by
  induction count generalizing s with
  | zero =>
    refine ⟨s, rfl, h, .refl _ _, fun index ↦ ?_⟩
    rw [← Option.not_isSome_iff_eq_none, hfields]
    exact Nat.not_lt_zero index
  | succ count ih =>
    obtain ⟨handle, hcell⟩ := Option.isSome_iff_exists.mp ((hfields count).mpr (Nat.lt_succ_self _))
    have hown : ∀ other index, HandleName.field object count = .field other index →
        (s.objects other).destroyed ≠ 0 := by
      intro other index heq
      obtain ⟨rfl, -⟩ := HandleName.field.inj heq
      exact hdestroyed
    obtain ⟨s₁, hrun₁, hinv₁, hlater₁, hgone, hkept⟩ :=
      hreleaser.destroyHandle h hcell hown hbound
    have hfields₁ : ∀ index, (s₁.handles.cell (.field object index)).isSome ↔ index < count := by
      intro index
      by_cases hsame : index = count
      · rw [hsame, hgone]
        simp
      · rw [hkept _ (by simpa using hsame), hfields]
        · omega
        · intro other index' heq
          obtain ⟨rfl, -⟩ := HandleName.field.inj heq
          exact hdestroyed
    obtain ⟨s₂, hrun₂, hinv₂, hlater₂, hnone⟩ := ih hinv₁ (hlater₁.destroyed hdestroyed) hfields₁
      (Nat.lt_of_le_of_lt hlater₁.aliveCount_le hbound)
    exact ⟨s₂, (bind_ok hrun₁).trans hrun₂, hinv₂,
      (hlater₁.mono fun name hname ↦ ⟨count, hname⟩).trans hlater₂, hnone⟩

/-- Fewer objects are left after the destructor of one has begun. -/
theorem aliveCount_condemned {block : ℕ} (hcreated : block < s.created)
    (halive : (s.objects block).destroyed = 0) :
    (s.condemned block).aliveCount < s.aliveCount := by
  refine Finset.card_lt_card ⟨fun object hmem ↦ ?_, fun hsub ↦ ?_⟩
  · rw [Finset.mem_filter] at hmem ⊢
    refine ⟨hmem.1, ?_⟩
    by_cases hsame : object = block
    · exact hsame ▸ halive
    · rw [objects_condemned_of_ne s hsame] at hmem
      exact hmem.2
  · have hmem := hsub (Finset.mem_filter.mpr ⟨Finset.mem_range.mpr hcreated, halive⟩)
    rw [Finset.mem_filter, objects_condemned_self] at hmem
    cases hmem.2

/-- The object whose last reference is given up belongs to every region around it. -/
theorem Later.condemned {block : ℕ} {ptr : Option ℕ}
    (h : Invariant s dying [.shared (some block) ptr]) (hlast : (s.blocks block).useCnt = 1) :
    Later (fun _ ↦ False) s (s.condemned block) := by
  have hcreated : block < s.created := (h.usable (Or.inl (by omega))).1
  have halive := h.destroyed block hcreated
  rw [if_neg (by omega)] at halive
  have huse := h.use block
  rw [attached_cons, if_pos (by simp [Handle.strongTo]), hlast, State.attached] at huse
  have hnone := Heap.count_eq_zero_iff.mp
    (show s.handles.count (Handle.strongTo block) = 0 by omega)
  refine ⟨rfl, fieldCount_condemned s block, fun region _ hwithin ↦ ⟨hwithin.cell,
    fun object hdead ↦ ?_, fun object hdead ↦ ?_⟩⟩
  · by_cases hsame : object = block
    · rw [hsame, objects_condemned_self]
      exact Nat.succ_ne_zero _
    · rw [objects_condemned_of_ne s hsame]
      exact hwithin.alive object hdead
  · by_cases hsame : object = block
    · refine Or.inr (hsame ▸ region.closed block ?_ fun name handle hcell hstrong ↦ ?_)
      · by_contra hstart
        exact hwithin.alive block hstart halive
      · rcases hwithin.cell name with heq | ⟨-, hlost⟩
        · rw [hnone name handle (heq.trans hcell)] at hstrong
          cases hstrong
        · exact hlost
    · rw [objects_condemned_of_ne s hsame] at hdead
      exact hwithin.doomed object hdead

/-- What the destructor of the object destroys belongs to every region around the release. -/
theorem Later.destroyed_fields {s' : State} {block : ℕ}
    (h : Later (fun _ ↦ False) s (s.condemned block)) (halive : (s.objects block).destroyed = 0)
    (hfields : Later (fun name ↦ ∃ index, name = .field block index) (s.condemned block) s') :
    Later (fun _ ↦ False) s s' := by
  refine ⟨hfields.created.trans h.created,
    fun object ↦ (hfields.fieldCount object).trans (h.fieldCount object),
    fun region hlost hwithin ↦ ?_⟩
  have hcondemned := h.within region hlost hwithin
  refine hfields.within region ?_ hcondemned
  rintro name ⟨index, rfl⟩
  refine region.fields block index ((hcondemned.doomed block ?_).resolve_left fun hstart ↦ ?_)
  · rw [objects_condemned_self]
    exact Nat.succ_ne_zero _
  · exact hwithin.alive block hstart halive

theorem readObject_apply (object : ℕ) (s : State) :
    readObject object s = .ok (s.objects object) s :=
  rfl

theorem deleteObject_run {s' : State} {object : ℕ} (halive : (s.objects object).destroyed = 0)
    (hfields : destroyFields releaser object (s.objects object).fieldCount
      (s.marked object) = .ok () s') : deleteObject releaser object s = .ok () s' := by
  unfold deleteObject
  rw [bind_ok (readObject_apply object s), if_pos halive, bind_ok (markDestroyed_apply object s)]
  exact hfields

theorem destroyObject_run {s' : State} {block object : ℕ}
    (husable : block < s.created ∧ (s.blocks block).freed = 0)
    (hptr : (s.blocks block).ptr = some object)
    (hdelete : deleteObject releaser object s = .ok () s')
    (husable' : block < s'.created ∧ (s'.blocks block).freed = 0) :
    destroyObject releaser block s =
      .ok () (s'.withBlock block { s'.blocks block with ptr := none }) := by
  unfold destroyObject
  rw [bind_ok (readBlock_apply husable), hptr]
  rw [deletePtr, bind_ok hdelete, modifyBlock_apply husable']

/-- The end of `Release`, after the object was destroyed. -/
theorem retire_run {block : ℕ} (husable : block < s.created ∧ (s.blocks block).freed = 0) :
    (do modifyBlock block fun cb ↦ { cb with isDestroying := false }
        if (← readBlock block).weakCnt = 0 then destroyBlock block : PtrM Unit)
      (s.withBlock block { s.blocks block with ptr := none }) =
        .ok () (s.withBlock block (s.blocks block).retired) := by
  rw [bind_ok (modifyBlock_apply (usable_withBlock husable (by rfl)) _), blocks_withBlock_self,
    withBlock_withBlock, bind_ok (readBlock_apply (usable_withBlock husable (by rfl))),
    blocks_withBlock_self]
  by_cases hweak : (s.blocks block).weakCnt = 0
  · rw [if_pos hweak, destroyBlock, modifyBlock_apply (usable_withBlock husable (by rfl)),
      blocks_withBlock_self, withBlock_withBlock, Block.retired, if_pos hweak]
  · rw [if_neg hweak, pure_apply, Block.retired, if_neg hweak]

/-- `Release` keeps the invariant. The induction is on the bound: the destructor that it may run
leaves fewer objects for the releases nested in it. -/
theorem release_run (bound : ℕ) : Releases (release bound) bound := by
  induction bound with
  | zero =>
    intro s dying block ptr h hbound
    exact absurd hbound (Nat.not_lt_zero _)
  | succ bound ih =>
    intro s dying block ptr h hbound
    have huse := h.use block
    rw [attached_cons, if_pos (by simp [Handle.strongTo])] at huse
    have hpositive : (s.blocks block).useCnt ≠ 0 := by omega
    have husable := h.usable (Or.inl hpositive)
    have hdecrement :
        decrement (s.blocks block).useCnt = s.attached [] (Handle.strongTo block) := by
      rw [decrement, if_neg hpositive, huse, Nat.add_sub_cancel]
    rw [release, bind_ok (readBlock_apply husable), bind_ok (noteUnderflow_apply hpositive s),
      bind_ok (modifyBlock_apply husable _),
      bind_ok (readBlock_apply (usable_withBlock husable (by rfl))),
      blocks_withBlock_self]
    by_cases hlast : (s.blocks block).useCnt = 1
    · have hnot : block ∉ dying := fun hmem ↦ hpositive (h.dead block hmem).2
      have halive := h.destroyed block husable.1
      rw [if_neg hpositive] at halive
      have hptr := h.ptr block husable.1
      rw [if_neg fun hzero ↦ hpositive hzero.1] at hptr
      have hcondemned := h.condemned hlast
      have hlater := Later.condemned h hlast
      have hfields : ∀ index, ((s.condemned block).handles.cell (.field block index)).isSome ↔
          index < (s.objects block).fieldCount := by
        intro index
        constructor
        · intro hsome
          obtain ⟨handle, hcell⟩ := Option.isSome_iff_exists.mp hsome
          exact (h.field block index handle hcell).2.1
        · intro hindex
          exact Option.isSome_iff_ne_none.mpr (h.fields block index husable.1 halive hindex)
      have hfewer := aliveCount_condemned husable.1 halive
      obtain ⟨s', hrun, hinv, hlater', hgone⟩ := ih.destroyFields (s.objects block).fieldCount
        hcondemned (by rw [objects_condemned_self]; exact Nat.succ_ne_zero _) hfields (by omega)
      have hzero : decrement (s.blocks block).useCnt = 0 := by rw [hlast]; rfl
      have husable' := hinv.usable_of_dying (List.mem_cons_self : block ∈ block :: dying)
      rw [if_pos hzero, hzero,
        bind_ok (modifyBlock_apply (usable_withBlock husable (by rfl)) _), blocks_withBlock_self,
        withBlock_withBlock]
      refine ⟨s'.withBlock block (s'.blocks block).retired, ?_, hinv.retired hnot hgone,
        (hlater.destroyed_fields halive hlater').trans (.of_blocks rfl rfl rfl)⟩
      have hdestroy := destroyObject_run (usable_withBlock husable (by rfl))
        (by rw [blocks_withBlock_self]; exact hptr) (deleteObject_run halive hrun) husable'
      exact (bind_ok hdestroy).trans (retire_run husable')
    · have hmore : decrement (s.blocks block).useCnt ≠ 0 := by
        rw [decrement, if_neg hpositive]
        omega
      rw [if_neg hmore, pure_apply]
      refine ⟨_, rfl, ?_, .of_blocks rfl rfl rfl⟩
      refine h.setBlock husable.1 (fun other hother ↦ ?_) (fun other _ ↦ ?_) hdecrement ?_ ?_ rfl ?_
        rfl
      · rw [attached_cons, if_neg (by simpa [Handle.strongTo] using hother.symm)]
        rfl
      · rw [attached_cons, if_neg (by simp [Handle.weakTo])]
        rfl
      · rw [h.weak block, attached_cons, if_neg (by simp [Handle.weakTo])]
        rfl
      · exact ⟨fun hzero ↦ absurd hzero hmore, fun hzero ↦ absurd hzero hpositive⟩
      · rw [if_neg fun hzero ↦ hmore hzero.1]
        exact husable.2

end Nested

end StudStuff.SharedPtr
