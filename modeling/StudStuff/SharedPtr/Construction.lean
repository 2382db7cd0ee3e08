import StudStuff.SharedPtr.Reentrancy

/-!
# Constructors

Each constructor returns from a state that satisfies the invariant, and leaves another one
(`Constructed`). The copying constructors and `Lock` count one more reference and store it
(`attach_run`). A handle on a fresh raw pointer comes with a new object and its control block.
-/

set_option autoImplicit false
set_option relaxedAutoImplicit false

namespace StudStuff.SharedPtr

open Lib

variable {s s' : State} {name source : HandleName} {handle handle' : Handle}

/-! ### Accesses to handles -/

theorem readHandle_apply (hstanding : s.standing name = true)
    (hcell : s.handles.cell name = some handle) : readHandle name s = .ok handle s := by
  rw [readHandle, hstanding, hcell]

theorem modifyHandle_apply (hstanding : s.standing name = true)
    (hcell : s.handles.cell name = some handle) (change : Handle → Handle) :
    modifyHandle name change s =
      .ok () { s with handles := s.handles.store name (change handle) } := by
  rw [modifyHandle, hstanding, hcell]

theorem modifyHandle_fallen (hstanding : s.standing name = false) (change : Handle → Handle) :
    modifyHandle name change s = .error .badAccess s := by
  rw [modifyHandle, hstanding]

theorem createHandle_apply (name : HandleName) (handle : Handle) (s : State) :
    createHandle name handle s = .ok () { s with handles := s.handles.store name handle } :=
  rfl

/-- Clearing both fields leaves what the default constructor makes. -/
theorem clearPtr_clearCb (handle : Handle) : handle.clearCb.clearPtr = .empty handle.kind := by
  cases handle <;> rfl

/-! ### Constructors -/

section Construct

/-- A handle whose reference may be counted: its object is not destroyed, or its block was not
freed. -/
def Attachable (s : State) : Handle → Prop
  | .shared (some block) _ => (s.blocks block).useCnt ≠ 0
  | .weak (some block) => block < s.created ∧ (s.blocks block).freed = 0
  | _ => True

/-- A handle that lives is attached to a block that may be used. -/
theorem Invariant.attachable (h : Invariant s [] []) (hcell : s.handles.cell name = some handle) :
    Attachable s handle := by
  rcases handle with ⟨_ | block, ptr⟩ | ⟨_ | block⟩
  · trivial
  · exact h.useCnt_ne_zero hcell (by simp [Handle.strongTo])
  · trivial
  · exact h.usable (Or.inr (h.weakCnt_ne_zero hcell (by simp [Handle.weakTo])))

/-- `AddRef` and `AddWeak` count one more reference, which is owed to a new handle. -/
theorem addCb_run (h : Invariant s [] []) (hready : Attachable s handle) :
    ∃ blocks, Invariant { s with blocks := blocks } [] [handle] ∧
      ∀ handles, addCb handle { s with handles := handles } =
        .ok () { s with handles := handles, blocks := blocks } := by
  have hunattached (hstrong : ∀ block, handle.strongTo block = false)
      (hweak : ∀ block, handle.weakTo block = false) : Invariant s [] [handle] :=
    h.of_owed (fun block ↦ by simp [hstrong]) fun block ↦ by simp [hweak]
  rcases handle with ⟨_ | block, ptr⟩ | ⟨_ | block⟩
  · exact ⟨s.blocks, hunattached (by simp [Handle.strongTo]) (by simp [Handle.weakTo]),
      fun _ ↦ rfl⟩
  · have hpositive : (s.blocks block).useCnt ≠ 0 := hready
    have husable := h.usable (Or.inl hpositive)
    refine ⟨(s.withBlock block { s.blocks block with
      useCnt := (s.blocks block).useCnt + 1 }).blocks, ?_, fun handles ↦ ?_⟩
    · refine h.setBlock husable.1 (fun other hother ↦ ?_) (fun other hother ↦ ?_) ?_ ?_
        (by simp [hpositive]) rfl ?_ rfl
      · rw [attached_cons, if_neg (by simpa [Handle.strongTo] using hother.symm), Nat.add_zero]
      · rw [attached_cons, if_neg (by simp [Handle.weakTo]), Nat.add_zero]
      · rw [h.use block, attached_cons, if_pos (by simp [Handle.strongTo])]
      · rw [h.weak block, attached_cons, if_neg (by simp [Handle.weakTo]), Nat.add_zero]
      · rw [if_neg (by simp)]
        exact husable.2
    · exact modifyBlock_apply (s := { s with handles := handles }) husable
        fun cb ↦ { cb with useCnt := cb.useCnt + 1 }
  · exact ⟨s.blocks, hunattached (by simp [Handle.strongTo]) (by simp [Handle.weakTo]),
      fun _ ↦ rfl⟩
  · have husable : block < s.created ∧ (s.blocks block).freed = 0 := hready
    refine ⟨(s.withBlock block { s.blocks block with
      weakCnt := (s.blocks block).weakCnt + 1 }).blocks, ?_, fun handles ↦ ?_⟩
    · refine h.setBlock husable.1 (fun other hother ↦ ?_) (fun other hother ↦ ?_) ?_ ?_
        Iff.rfl rfl ?_ rfl
      · rw [attached_cons, if_neg (by simp [Handle.strongTo]), Nat.add_zero]
      · rw [attached_cons, if_neg (by simpa [Handle.weakTo] using hother.symm), Nat.add_zero]
      · rw [h.use block, attached_cons, if_neg (by simp [Handle.strongTo]), Nat.add_zero]
      · rw [h.weak block, attached_cons, if_pos (by simp [Handle.weakTo])]
      · rw [if_neg (by simp)]
        exact husable.2
    · exact modifyBlock_apply (s := { s with handles := handles }) husable
        fun cb ↦ { cb with weakCnt := cb.weakCnt + 1 }

/-- A constructor has made a handle. -/
structure Constructed (name : HandleName) (s s' : State) : Prop where
  invariant : Invariant s' [] []
  made : s'.handles.cell name ≠ none
  lives : ∀ other, s.handles.cell other ≠ none → s'.handles.cell other ≠ none
  temporary : name ≠ .temporary → s.handles.cell .temporary = none →
    s'.handles.cell .temporary = none

/-- A constructor that stores one handle. -/
theorem Constructed.of_store {t : State} (hhandles : t.handles = s.handles.store name handle)
    (hinv : Invariant t [] []) : Constructed name s t := by
  refine ⟨hinv, ?_, fun other hother ↦ ?_, fun hname htemporary ↦ ?_⟩
  · rw [hhandles, Heap.cell_store, if_pos rfl]
    exact Option.some_ne_none handle
  · rw [hhandles, Heap.cell_store]
    split_ifs
    · exact Option.some_ne_none handle
    · exact hother
  · rwa [hhandles, Heap.cell_store, if_neg hname.symm]

/-- A constructor that copies a reference and counts it. -/
theorem attach_run (h : Invariant s [] []) (hnone : s.handles.cell name = none)
    (hname : ∀ object index, name ≠ .field object index) (hready : Attachable s handle) :
    ∃ s', (do createHandle name handle
              addCb handle : PtrM Unit) s = .ok () s' ∧ Constructed name s s' := by
  obtain ⟨blocks, hinv, hrun⟩ := addCb_run h hready
  refine ⟨_, ?_, .of_store rfl (hinv.give hnone hname)⟩
  rw [bind_ok (createHandle_apply name handle s)]
  exact hrun _

theorem copyConstruct_run (h : Invariant s [] []) (hnone : s.handles.cell name = none)
    (hname : ∀ object index, name ≠ .field object index)
    (hsource : s.handles.cell source = some handle) :
    ∃ s', copyConstruct name source s = .ok () s' ∧ Constructed name s s' := by
  obtain ⟨s', hrun, hmade⟩ := attach_run h hnone hname (h.attachable hsource)
  exact ⟨s', (bind_ok (readHandle_apply (h.standing hsource) hsource)).trans hrun, hmade⟩

theorem moveConstruct_run (h : Invariant s [] []) (hnone : s.handles.cell name = none)
    (hname : ∀ object index, name ≠ .field object index)
    (hsource : s.handles.cell source = some handle) :
    ∃ s', moveConstruct name source s = .ok () s' ∧ Constructed name s s' := by
  have hne : name ≠ source := by
    rintro rfl
    rw [hnone] at hsource
    cases hsource
  have hnone' : (s.handles.store source (.empty handle.kind)).cell name = none := by
    rw [Heap.cell_store, if_neg hne, hnone]
  refine ⟨{ s with
    handles := (s.handles.store source (.empty handle.kind)).store name handle }, ?_, ?_⟩
  · unfold moveConstruct
    rw [bind_ok (readHandle_apply (h.standing hsource) hsource),
      bind_ok (modifyHandle_apply (h.standing hsource) hsource _), clearPtr_clearCb]
    rfl
  · refine ⟨(h.detach hsource handle.kind).give hnone' hname, by simp, fun other hother ↦ ?_,
      fun htemporary hgone ↦ ?_⟩
    · rw [Heap.cell_store, Heap.cell_store]
      split_ifs
      · simp
      · simp
      · exact hother
    · have hother : source ≠ .temporary := by
        rintro rfl
        rw [hgone] at hsource
        cases hsource
      rw [Heap.cell_store, if_neg htemporary.symm, Heap.cell_store, if_neg hother.symm]
      exact hgone

theorem weakConstruct_run (h : Invariant s [] []) (hnone : s.handles.cell name = none)
    (hname : ∀ object index, name ≠ .field object index) {cb ptr : Option ℕ}
    (hsource : s.handles.cell source = some (.shared cb ptr)) :
    ∃ s', weakConstruct name source s = .ok () s' ∧ Constructed name s s' := by
  have hready : Attachable s (.weak cb) := by
    cases cb with
    | none => trivial
    | some block => exact h.usable (Or.inl (h.attachable hsource))
  obtain ⟨s', hrun, hmade⟩ := attach_run h hnone hname hready
  exact ⟨s', (bind_ok (readHandle_apply (h.standing hsource) hsource)).trans hrun, hmade⟩

theorem createEmpty_run (h : Invariant s [] []) (hnone : s.handles.cell name = none)
    (hname : ∀ object index, name ≠ .field object index) (kind : HandleKind) :
    ∃ s', createHandle name (.empty kind) s = .ok () s' ∧ Constructed name s s' :=
  ⟨_, createHandle_apply name (.empty kind) s, .of_store rfl (h.createEmpty kind hnone hname)⟩

/-- `Lock` makes an empty handle when no `SharedPtr` is left, and one more reference otherwise. -/
theorem lock_run (h : Invariant s [] []) (hnone : s.handles.cell name = none)
    (hname : ∀ object index, name ≠ .field object index) {cb : Option ℕ}
    (hsource : s.handles.cell source = some (.weak cb)) :
    ∃ s', lock name source s = .ok () s' ∧ Constructed name s s' := by
  have hread := readHandle_apply (h.standing hsource) hsource
  cases cb with
  | none =>
    obtain ⟨s', hrun, hmade⟩ := createEmpty_run h hnone hname .shared
    exact ⟨s', (bind_ok hread).trans hrun, hmade⟩
  | some block =>
    have hblock := readBlock_apply (h.attachable hsource)
    have hcount : useCount (.weak (some block)) s = .ok (s.blocks block).useCnt s := bind_ok hblock
    unfold lock
    rw [bind_ok hread, bind_ok hcount]
    by_cases hexpired : (s.blocks block).useCnt = 0
    · rw [if_pos hexpired]
      exact createEmpty_run h hnone hname .shared
    · obtain ⟨s', hrun, hmade⟩ := attach_run h hnone hname
        (show Attachable s (.shared (some block) (s.blocks block).ptr) from hexpired)
      rw [if_neg hexpired]
      exact ⟨s', (bind_ok hblock).trans hrun, hmade⟩

/-- The state with a fresh object, its fields and its control block. -/
def State.extended (s : State) (kinds : List HandleKind) : State where
  handles := s.handles.overlay (newFields s.created kinds) (fieldNames s.created kinds)
    (mem_fieldNames s.created kinds)
  created := s.created + 1
  objects := Function.update s.objects s.created ⟨kinds.length, 0⟩
  blocks := Function.update s.blocks s.created ⟨1, 0, false, some s.created, 0⟩
  underflowed := s.underflowed

theorem newObject_apply (kinds : List HandleKind) (s : State) :
    newObject kinds s = .ok s.created (s.extended kinds) :=
  rfl

theorem blocks_extended_self (s : State) (kinds : List HandleKind) :
    (s.extended kinds).blocks s.created = ⟨1, 0, false, some s.created, 0⟩ :=
  Function.update_self ..

theorem blocks_extended_of_ne (s : State) (kinds : List HandleKind) {block : ℕ}
    (hblock : block ≠ s.created) : (s.extended kinds).blocks block = s.blocks block :=
  Function.update_of_ne hblock ..

theorem objects_extended_self (s : State) (kinds : List HandleKind) :
    (s.extended kinds).objects s.created = ⟨kinds.length, 0⟩ :=
  Function.update_self ..

theorem objects_extended_of_ne (s : State) (kinds : List HandleKind) {object : ℕ}
    (hobject : object ≠ s.created) : (s.extended kinds).objects object = s.objects object :=
  Function.update_of_ne hobject ..

theorem cell_extended (s : State) (kinds : List HandleKind) (other : HandleName) :
    (s.extended kinds).handles.cell other =
      (newFields s.created kinds other).or (s.handles.cell other) :=
  Heap.cell_overlay s.handles _ _ (mem_fieldNames s.created kinds) other

/-- The fields of a new object are not attached. -/
theorem newFields_empty {object : ℕ} {kinds : List HandleKind} {other : HandleName}
    (hcell : newFields object kinds other = some handle) : ∃ kind, handle = .empty kind := by
  cases other with
  | root index => cases hcell
  | temporary => cases hcell
  | field owner index =>
    rw [newFields] at hcell
    split_ifs at hcell
    obtain ⟨kind, -, rfl⟩ := Option.map_eq_some_iff.mp hcell
    exact ⟨kind, rfl⟩

/-- No field of an object that was not created lives. -/
theorem Invariant.no_field (h : Invariant s [] []) (index : ℕ) :
    s.handles.cell (.field s.created index) = none := by
  by_contra hlive
  obtain ⟨handle, hcell⟩ := Option.ne_none_iff_exists'.mp hlive
  exact Nat.lt_irrefl _ (h.field _ _ _ hcell).1

/-- The fields of a fresh object are new. -/
theorem Invariant.newFields_dead (h : Invariant s [] []) {kinds : List HandleKind}
    {other : HandleName} (hsome : (newFields s.created kinds other).isSome) :
    s.handles.cell other = none := by
  cases other with
  | root index => cases hsome
  | temporary => cases hsome
  | field object index =>
    rw [newFields] at hsome
    split_ifs at hsome with hobject
    · rw [hobject]
      exact h.no_field index
    · cases hsome

/-- A fresh object attaches no handle yet. -/
theorem Invariant.count_extended (h : Invariant s [] []) (kinds : List HandleKind)
    {property : Handle → Bool} (hproperty : ∀ kind, property (.empty kind) = false) :
    (s.extended kinds).handles.count property = s.handles.count property := by
  apply Heap.count_overlay (mem_fieldNames s.created kinds)
  · intro other hsome
    exact h.newFields_dead hsome
  · intro other value hvalue
    obtain ⟨kind, rfl⟩ := newFields_empty hvalue
    exact hproperty kind

/-- One more number was given out. The invariant holds again if it holds for the new number, and
nothing has changed for the others. -/
theorem Invariant.fresh (h : Invariant s [] []) {t : State} {owed : List Handle}
    (hcreated : t.created = s.created + 1) (hunderflow : t.underflowed = s.underflowed)
    (hblocks : ∀ block ≠ s.created, t.blocks block = s.blocks block)
    (hobjects : ∀ object ≠ s.created, t.objects object = s.objects object)
    (hcells : ∀ object ≠ s.created, ∀ index,
      t.handles.cell (.field object index) = s.handles.cell (.field object index))
    (huse : ∀ block, (t.blocks block).useCnt = t.attached owed (Handle.strongTo block))
    (hweak : ∀ block, (t.blocks block).weakCnt = t.attached owed (Handle.weakTo block))
    (hsettled : (t.blocks s.created).isDestroying = false)
    (hdestroyed : (t.objects s.created).destroyed =
      if (t.blocks s.created).useCnt = 0 then 1 else 0)
    (hfreed : (t.blocks s.created).freed =
      if (t.blocks s.created).useCnt = 0 ∧ (t.blocks s.created).weakCnt = 0 then 1 else 0)
    (hptr : (t.blocks s.created).ptr =
      if (t.blocks s.created).useCnt = 0 then none else some s.created)
    (hfields : ∀ index, t.handles.cell (.field s.created index) ≠ none ↔
      (t.objects s.created).destroyed = 0 ∧ index < (t.objects s.created).fieldCount) :
    Invariant t [] owed := by
  have hold {block : ℕ} (hlt : block < t.created) (hne : block ≠ s.created) :
      block < s.created := by omega
  constructor
  case use => exact huse
  case weak => exact hweak
  case uncreated =>
    intro block hle
    rw [hblocks block (by omega)]
    exact h.uncreated block (by omega)
  case destroyed =>
    intro block hlt
    by_cases hsame : block = s.created
    · rw [hsame, hdestroyed]
    · rw [hblocks block hsame, hobjects block hsame]
      exact h.destroyed block (hold hlt hsame)
  case destroying =>
    intro block
    by_cases hsame : block = s.created
    · rw [hsame, hsettled]
      simp
    · rw [hblocks block hsame]
      exact h.destroying block
  case dead =>
    intro block hmem
    cases hmem
  case freed =>
    intro block hlt
    by_cases hsame : block = s.created
    · rw [hsame, hfreed]
      simp
    · rw [hblocks block hsame]
      exact h.freed block (hold hlt hsame)
  case ptr =>
    intro block hlt
    by_cases hsame : block = s.created
    · rw [hsame, hptr]
      simp
    · rw [hblocks block hsame]
      exact h.ptr block (hold hlt hsame)
  case field =>
    intro object index handle hcell
    by_cases hsame : object = s.created
    · obtain ⟨halive, hindex⟩ := (hfields index).mp (hsame ▸ hcell ▸ Option.some_ne_none handle)
      rw [hsame]
      exact ⟨by omega, hindex, Or.inl halive⟩
    · rw [hcells object hsame] at hcell
      obtain ⟨hlt, hindex, hdead⟩ := h.field object index handle hcell
      rw [hobjects object hsame]
      exact ⟨by omega, hindex, hdead⟩
  case fields =>
    intro object index hlt halive hindex
    by_cases hsame : object = s.created
    · rw [hsame] at halive hindex ⊢
      exact (hfields index).mpr ⟨halive, hindex⟩
    · rw [hobjects object hsame] at halive hindex
      rw [hcells object hsame]
      exact h.fields object index (hold hlt hsame) halive hindex
  case underflow => exact hunderflow.trans h.underflow

/-- A fresh object comes with its control block, whose one reference is owed. -/
theorem Invariant.extended (h : Invariant s [] []) (kinds : List HandleKind) :
    Invariant (s.extended kinds) [] [.shared (some s.created) (some s.created)] := by
  have huncreated := h.uncreated s.created (Nat.le_refl _)
  apply h.fresh
  · rfl
  · rfl
  · intro block hblock
    exact blocks_extended_of_ne s kinds hblock
  · intro object hobject
    exact objects_extended_of_ne s kinds hobject
  · intro object hobject index
    rw [cell_extended, newFields, if_neg hobject, Option.none_or]
  · intro block
    have huse := h.use block
    rw [State.attached] at huse ⊢
    rw [h.count_extended kinds (by simp)]
    by_cases hsame : block = s.created
    · rw [hsame, blocks_extended_self]
      rw [hsame, huncreated.1, List.countP_nil, Nat.add_zero] at huse
      simp [Handle.strongTo, huse.symm]
    · rw [blocks_extended_of_ne s kinds hsame, huse]
      simp [Handle.strongTo, Ne.symm hsame]
  · intro block
    have hweak := h.weak block
    rw [State.attached] at hweak ⊢
    rw [h.count_extended kinds (by simp)]
    by_cases hsame : block = s.created
    · rw [hsame, blocks_extended_self]
      rw [hsame, huncreated.2, List.countP_nil, Nat.add_zero] at hweak
      simp [Handle.weakTo, hweak.symm]
    · rw [blocks_extended_of_ne s kinds hsame, hweak]
      simp [Handle.weakTo]
  · rw [blocks_extended_self]
  · rw [blocks_extended_self, objects_extended_self, if_neg Nat.one_ne_zero]
  · rw [blocks_extended_self]
    rfl
  · rw [blocks_extended_self]
    rfl
  · intro index
    rw [cell_extended, newFields, if_pos rfl, h.no_field index, Option.or_none,
      objects_extended_self]
    simp

theorem constructRaw_run (h : Invariant s [] []) (hnone : s.handles.cell name = none)
    (hname : ∀ object index, name ≠ .field object index) (kinds : List HandleKind) :
    ∃ s', constructRaw name kinds s = .ok () s' ∧ Constructed name s s' := by
  have hframe (other : HandleName) (hother : ∀ object index, other ≠ .field object index) :
      (s.extended kinds).handles.cell other = s.handles.cell other := by
    rw [cell_extended]
    cases other with
    | root index => rfl
    | temporary => rfl
    | field object index => exact absurd rfl (hother object index)
  have hnone' : (s.extended kinds).handles.cell name = none := by rw [hframe name hname, hnone]
  refine ⟨_, (bind_ok (newObject_apply kinds s)).trans (createHandle_apply _ _ _),
    (h.extended kinds).give hnone' hname, ?_, fun other hother ↦ ?_, fun htemporary hgone ↦ ?_⟩
  · rw [Heap.cell_store, if_pos rfl]
    exact Option.some_ne_none _
  · rw [Heap.cell_store]
    split_ifs
    · exact Option.some_ne_none _
    · rw [cell_extended]
      cases newFields s.created kinds other with
      | none => exact hother
      | some value => simp
  · rw [Heap.cell_store, if_neg htemporary.symm, hframe _ (by simp), hgone]

end Construct

end StudStuff.SharedPtr
