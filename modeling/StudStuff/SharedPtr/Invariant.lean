import StudStuff.Lib.Execution
import StudStuff.SharedPtr.Handles

/-!
# The reference counting invariant

`Invariant s dying owed` is the invariant of reference counting in the middle of nested releases.
`dying` are the blocks whose object is being destroyed at the moment, and `owed` are handles whose
lifetime has ended while the decrement of their counter is still to come. Every counter is the
number of attached handles that live or are owed. Between operations nothing is dying or owed.

The changes to the memory that the programs are made of are given names here, and each has one
lemma that says what it does to the invariant.
-/

set_option autoImplicit false
set_option relaxedAutoImplicit false

namespace StudStuff.SharedPtr

open Lib

/-! ### The invariant -/

/-- The number of handles with a property that live or are owed. -/
def State.attached (s : State) (owed : List Handle) (property : Handle → Bool) : ℕ :=
  s.handles.count property + owed.countP property

/-- The invariant of reference counting. -/
structure Invariant (s : State) (dying : List ℕ) (owed : List Handle) : Prop where
  use : ∀ block, (s.blocks block).useCnt = s.attached owed (Handle.strongTo block)
  weak : ∀ block, (s.blocks block).weakCnt = s.attached owed (Handle.weakTo block)
  uncreated : ∀ block, s.created ≤ block →
    (s.blocks block).useCnt = 0 ∧ (s.blocks block).weakCnt = 0
  destroyed : ∀ block, block < s.created →
    (s.objects block).destroyed = if (s.blocks block).useCnt = 0 then 1 else 0
  destroying : ∀ block, (s.blocks block).isDestroying = true ↔ block ∈ dying
  dead : ∀ block ∈ dying, block < s.created ∧ (s.blocks block).useCnt = 0
  freed : ∀ block, block < s.created → (s.blocks block).freed =
    if (s.blocks block).useCnt = 0 ∧ (s.blocks block).weakCnt = 0 ∧ block ∉ dying then 1 else 0
  ptr : ∀ block, block < s.created → (s.blocks block).ptr =
    if (s.blocks block).useCnt = 0 ∧ block ∉ dying then none else some block
  field : ∀ object index handle, s.handles.cell (.field object index) = some handle →
    object < s.created ∧ index < (s.objects object).fieldCount ∧
      ((s.objects object).destroyed = 0 ∨ object ∈ dying)
  fields : ∀ object index, object < s.created → (s.objects object).destroyed = 0 →
    index < (s.objects object).fieldCount → s.handles.cell (.field object index) ≠ none
  underflow : s.underflowed = false

/-! ### Attached handles -/

section Attached

variable {s : State} {dying : List ℕ} {owed : List Handle} {block : ℕ}

@[simp] theorem strongTo_empty (kind : HandleKind) (block : ℕ) :
    (Handle.empty kind).strongTo block = false := by
  cases kind <;> simp [Handle.empty, Handle.strongTo]

@[simp] theorem weakTo_empty (kind : HandleKind) (block : ℕ) :
    (Handle.empty kind).weakTo block = false := by
  cases kind <;> simp [Handle.empty, Handle.weakTo]

/-- Attaching one more owed handle. -/
theorem attached_cons (s : State) (owed : List Handle) (handle : Handle)
    (property : Handle → Bool) : s.attached (handle :: owed) property =
      s.attached owed property + if property handle then 1 else 0 := by
  rw [State.attached, State.attached, List.countP_cons, Nat.add_assoc]

/-- A block with a counter that is not zero exists and was not freed. -/
theorem Invariant.usable (h : Invariant s dying owed)
    (hcount : (s.blocks block).useCnt ≠ 0 ∨ (s.blocks block).weakCnt ≠ 0) :
    block < s.created ∧ (s.blocks block).freed = 0 := by
  have hcreated : block < s.created := by
    by_contra hle
    have hzero := h.uncreated block (Nat.le_of_not_lt hle)
    exact hcount.elim (fun h ↦ h hzero.1) (fun h ↦ h hzero.2)
  refine ⟨hcreated, ?_⟩
  rw [h.freed block hcreated, if_neg]
  rintro ⟨huse, hweak, -⟩
  exact hcount.elim (fun h ↦ h huse) (fun h ↦ h hweak)

/-- The block of an object that is being destroyed was not freed. -/
theorem Invariant.usable_of_dying (h : Invariant s dying owed) (hdying : block ∈ dying) :
    block < s.created ∧ (s.blocks block).freed = 0 := by
  refine ⟨(h.dead block hdying).1, ?_⟩
  rw [h.freed block (h.dead block hdying).1, if_neg]
  rintro ⟨-, -, hnot⟩
  exact hnot hdying

/-- A handle that lives keeps its counter above zero. -/
theorem Invariant.useCnt_ne_zero (h : Invariant s dying owed) {name : HandleName}
    {handle : Handle} (hcell : s.handles.cell name = some handle)
    (hstrong : handle.strongTo block = true) : (s.blocks block).useCnt ≠ 0 := by
  rw [h.use block, State.attached]
  have hcount := Heap.count_ne_zero hcell hstrong
  omega

theorem Invariant.weakCnt_ne_zero (h : Invariant s dying owed) {name : HandleName}
    {handle : Handle} (hcell : s.handles.cell name = some handle)
    (hweak : handle.weakTo block = true) : (s.blocks block).weakCnt ≠ 0 := by
  rw [h.weak block, State.attached]
  have hcount := Heap.count_ne_zero hcell hweak
  omega

/-- A handle of an object that has not been destroyed, or a variable, can be accessed. -/
theorem Invariant.standing (h : Invariant s [] owed) {name : HandleName} {handle : Handle}
    (hcell : s.handles.cell name = some handle) : s.standing name = true := by
  cases name with
  | root index => rfl
  | temporary => rfl
  | field object index =>
    have hfield := (h.field object index handle hcell).2.2
    simpa [State.standing] using hfield

end Attached

/-! ### Handles -/

section Handles

variable {s : State} {dying : List ℕ} {owed : List Handle}

/-- The invariant depends on the handles only through the counts and the fields that live. -/
theorem Invariant.of_handles (h : Invariant s dying owed) (handles : Heap HandleName Handle)
    (owed' : List Handle)
    (huse : ∀ block, handles.count (Handle.strongTo block) + owed'.countP (Handle.strongTo block) =
      s.attached owed (Handle.strongTo block))
    (hweak : ∀ block, handles.count (Handle.weakTo block) + owed'.countP (Handle.weakTo block) =
      s.attached owed (Handle.weakTo block))
    (hfield : ∀ object index, (handles.cell (.field object index)).isSome →
      (s.handles.cell (.field object index)).isSome)
    (hfields : ∀ object index, (s.objects object).destroyed = 0 →
      s.handles.cell (.field object index) ≠ none → handles.cell (.field object index) ≠ none) :
    Invariant { s with handles := handles } dying owed' := by
  refine ⟨fun block ↦ ?_, fun block ↦ ?_, h.uncreated, h.destroyed, h.destroying, h.dead, h.freed,
    h.ptr, fun object index handle hcell ↦ ?_, fun object index hcreated halive hindex ↦ ?_,
    h.underflow⟩
  · rw [State.attached, huse]
    exact h.use block
  · rw [State.attached, hweak]
    exact h.weak block
  · have hsome := hfield object index (by rw [hcell]; rfl)
    obtain ⟨handle', hcell'⟩ := Option.isSome_iff_exists.mp hsome
    exact h.field object index handle' hcell'
  · exact hfields object index halive (h.fields object index hcreated halive hindex)

/-- A handle that is not attached owes nothing. -/
theorem Invariant.of_owed (h : Invariant s dying owed) {owed' : List Handle}
    (huse : ∀ block, owed'.countP (Handle.strongTo block) = owed.countP (Handle.strongTo block))
    (hweak : ∀ block, owed'.countP (Handle.weakTo block) = owed.countP (Handle.weakTo block)) :
    Invariant s dying owed' :=
  h.of_handles s.handles owed' (fun block ↦ by rw [huse, State.attached])
    (fun block ↦ by rw [hweak, State.attached]) (fun _ _ ↦ id) (fun _ _ _ ↦ id)

/-- The lifetime of a handle ends: its reference is owed. -/
theorem Invariant.take (h : Invariant s dying owed) {name : HandleName} {handle : Handle}
    (hcell : s.handles.cell name = some handle)
    (hname : ∀ object index, name = .field object index → (s.objects object).destroyed ≠ 0) :
    Invariant { s with handles := s.handles.release name } dying (handle :: owed) := by
  refine h.of_handles _ _ (fun block ↦ ?_) (fun block ↦ ?_) (fun object index hsome ↦ ?_)
    fun object index halive hne ↦ ?_
  · have hcount : _ + (if handle.strongTo block then 1 else 0) =
      s.handles.count (Handle.strongTo block) := Heap.count_release _ hcell
    rw [List.countP_cons, State.attached]
    omega
  · have hcount : _ + (if handle.weakTo block then 1 else 0) =
      s.handles.count (Handle.weakTo block) := Heap.count_release _ hcell
    rw [List.countP_cons, State.attached]
    omega
  · rw [Heap.cell_release] at hsome
    split_ifs at hsome with hother
    · cases hsome
    · exact hsome
  · rw [Heap.cell_release, if_neg]
    · exact hne
    · intro hother
      exact hname object index hother.symm halive

/-- Two handles that exist exchange what they hold, or one takes it over from the other. -/
theorem Invariant.exchange (h : Invariant s dying owed) {first second : HandleName}
    {handle handle' : Handle} (hfirst : s.handles.cell first = some handle)
    (hsecond : s.handles.cell second = some handle') :
    Invariant { s with handles := (s.handles.store first handle').store second handle }
      dying owed := by
  have hcount (property : Handle → Bool) :
      ((s.handles.store first handle').store second handle).count property =
        s.handles.count property := by
    by_cases hsame : second = first
    · subst hsame
      have hstore : (s.handles.store second handle').store second handle = s.handles :=
        Heap.ext_cell fun other ↦ by
          by_cases hother : other = second
          · simp [hother, hfirst]
          · simp [hother]
      rw [hstore]
    · have hstored : (s.handles.store first handle').cell second = some handle' := by
        rw [Heap.cell_store, if_neg hsame, hsecond]
      have hfirst' := Heap.count_store_of_some property hfirst handle'
      have hsecond' := Heap.count_store_of_some property hstored handle
      omega
  refine h.of_handles _ _ (fun block ↦ by rw [hcount]; rfl) (fun block ↦ by rw [hcount]; rfl)
    (fun object index hsome ↦ ?_) fun object index _ hne ↦ ?_
  · rw [Heap.cell_store, Heap.cell_store] at hsome
    split_ifs at hsome with hother hother'
    · rw [hother, hsecond]
      rfl
    · rw [hother', hfirst]
      rfl
    · exact hsome
  · rw [Heap.cell_store, Heap.cell_store]
    split_ifs
    · simp
    · simp
    · exact hne

/-- The lifetime of a handle begins, for a reference that is owed. -/
theorem Invariant.give {handle : Handle} (h : Invariant s dying (handle :: owed))
    {name : HandleName} (hcell : s.handles.cell name = none)
    (hname : ∀ object index, name ≠ .field object index) :
    Invariant { s with handles := s.handles.store name handle } dying owed := by
  refine h.of_handles _ _ (fun block ↦ ?_) (fun block ↦ ?_) (fun object index hsome ↦ ?_)
    fun object index _ hne ↦ ?_
  · rw [Heap.count_store_of_none _ hcell, attached_cons, State.attached]
    omega
  · rw [Heap.count_store_of_none _ hcell, attached_cons, State.attached]
    omega
  · rw [Heap.cell_store, if_neg (hname object index).symm] at hsome
    exact hsome
  · rw [Heap.cell_store, if_neg (hname object index).symm]
    exact hne

/-- A new handle that is not attached. -/
theorem Invariant.createEmpty (h : Invariant s dying owed) {name : HandleName} (kind : HandleKind)
    (hcell : s.handles.cell name = none) (hname : ∀ object index, name ≠ .field object index) :
    Invariant { s with handles := s.handles.store name (.empty kind) } dying owed := by
  have howed : Invariant s dying (.empty kind :: owed) :=
    h.of_owed (fun block ↦ by simp) fun block ↦ by simp
  exact howed.give hcell hname

/-- A handle is cleared: its reference is owed. -/
theorem Invariant.detach (h : Invariant s dying owed) {name : HandleName} {handle : Handle}
    (hcell : s.handles.cell name = some handle) (kind : HandleKind) :
    Invariant { s with handles := s.handles.store name (.empty kind) } dying (handle :: owed) := by
  refine h.of_handles _ _ (fun block ↦ ?_) (fun block ↦ ?_) (fun object index hsome ↦ ?_)
    fun object index _ hne ↦ ?_
  · have hcount := Heap.count_store_of_some (Handle.strongTo block) hcell (.empty kind)
    rw [strongTo_empty, if_neg Bool.false_ne_true] at hcount
    rw [List.countP_cons, State.attached]
    omega
  · have hcount := Heap.count_store_of_some (Handle.weakTo block) hcell (.empty kind)
    rw [weakTo_empty, if_neg Bool.false_ne_true] at hcount
    rw [List.countP_cons, State.attached]
    omega
  · rw [Heap.cell_store] at hsome
    split_ifs at hsome with hother
    · rw [hother, hcell]
      rfl
    · exact hsome
  · rw [Heap.cell_store]
    split_ifs
    · simp
    · exact hne

end Handles

end StudStuff.SharedPtr
