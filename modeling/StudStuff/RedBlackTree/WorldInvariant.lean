import StudStuff.RedBlackTree.Contents
import StudStuff.RedBlackTree.World

/-!
# The invariant of all trees together

`Core.Invariant` assigns a good tree to every object: its cells are in the heap, the trees of
different objects have no node in common, and every live node belongs to one of them. A member
function that turns the tree of its object into another good tree keeps it
(`Core.Invariant.member`), because the heap without that tree is a background that holds the other
trees.

`Computes` says what a program does to the objects and to the heap, for every policy of keeping
sentinels and every content of their parent fields. `exec_computes` gives it for each operation of
the interface: no operation stops with a fault, and its result and its effect are the same for all
policies.
-/

set_option autoImplicit false
set_option relaxedAutoImplicit false

namespace StudStuff.RedBlackTree

open Lib

variable {Key : Type} {params : Params Key}

/-! ### The invariant -/

/-- A good tree for every object, apart from each other and with nothing else in the heap. -/
structure Core.Invariant (params : Params Key) (core : Core Key)
    (shapes : ObjectName → Tree Key) : Prop where
  object : ∀ name object, core.objects name = some object →
    object = ⟨(shapes name).ptr, (shapes name).size⟩
  absent : ∀ name, core.objects name = none → shapes name = .nil
  good : ∀ name, (shapes name).Good params.comp
  nodup : ∀ name, (shapes name).addresses.Nodup
  present : ∀ name, Present core.heap .nil (shapes name)
  disjoint : ∀ name name', name ≠ name' →
    ∀ address ∈ (shapes name).addresses, address ∉ (shapes name').addresses
  covered : ∀ address ∈ core.heap.live, ∃ name, address ∈ (shapes name).addresses
  fuse : core.fuse = none
  counters : core.allocated = core.freed + core.heap.live.card

/-- A node lies in the tree of an object that exists. -/
theorem Core.Invariant.exists_object {core : Core Key} {shapes : ObjectName → Tree Key}
    (h : core.Invariant params shapes) {name : ObjectName} {address : ℕ}
    (hmem : address ∈ (shapes name).addresses) : ∃ object, core.objects name = some object := by
  cases hobject : core.objects name with
  | none =>
    rw [h.absent name hobject] at hmem
    cases hmem
  | some object => exact ⟨object, rfl⟩

/-- The state around the tree of an object: the heap without the nodes of that tree. -/
def Core.background (core : Core Key) (nilNode : RBNode Key) (tree : Tree Key) : State Key where
  heap := core.heap.releaseAll tree.addresses
  nilNode := nilNode
  allocated := core.allocated
  freed := core.freed
  fuse := core.fuse
  root := .nil
  size := tree.size

/-- The objects and the heap after a member function of an object has changed its tree. -/
def Core.replace (core : Core Key) (name : ObjectName) (tree : Tree Key) (made freed : ℕ)
    (tree' : Tree Key) : Core Key where
  heap := (core.heap.releaseAll tree.addresses).overlay (tree'.cellAt .nil) tree'.addresses
    (Tree.mem_addresses .nil tree')
  allocated := core.allocated + made
  freed := core.freed + freed
  fuse := core.fuse
  objects := Function.update core.objects name (some ⟨tree'.ptr, tree'.size⟩)

section Replace

variable (core : Core Key) (name : ObjectName) (tree tree' : Tree Key) (made freed : ℕ)

theorem objects_replace : (core.replace name tree made freed tree').objects =
    Function.update core.objects name (some ⟨tree'.ptr, tree'.size⟩) :=
  rfl

theorem cell_replace (other : ℕ) : (core.replace name tree made freed tree').heap.cell other =
    (tree'.cellAt .nil other).or (if other ∈ tree.addresses then none else core.heap.cell other) :=
  rfl

theorem live_replace : (core.replace name tree made freed tree').heap.live =
    core.heap.live \ tree.addresses.toFinset ∪ tree'.addresses.toFinset :=
  rfl

end Replace

/-- What a program does to the objects and the heap, whatever the policy and the parent fields of
the sentinels. -/
def Computes (params : Params Key) {α : Type}
    (program : ∀ policy : SentinelPolicy params, WorldM Key policy.Store α)
    (core : Core Key) (value : α) (core' : Core Key) : Prop :=
  ∀ (policy : SentinelPolicy params) (store : policy.Store),
    (∀ name, (policy.load store name).IsSentinel params) →
      ∃ store', (∀ name, (policy.load store' name).IsSentinel params) ∧
        program policy ⟨core, store⟩ = .ok value ⟨core', store'⟩

section Programs

variable {α β : Type} {core core' core'' : Core Key} {value : α} {value' : β}

theorem Computes.bind {program : ∀ policy : SentinelPolicy params, WorldM Key policy.Store α}
    {next : ∀ policy : SentinelPolicy params, α → WorldM Key policy.Store β}
    (h : Computes params program core value core')
    (hnext : Computes params (fun policy ↦ next policy value) core' value' core'') :
    Computes params (fun policy ↦ program policy >>= next policy) core value' core'' := by
  intro policy store hstore
  obtain ⟨store', hstore', hrun⟩ := h policy store hstore
  obtain ⟨store'', hstore'', hrun'⟩ := hnext policy store' hstore'
  refine ⟨store'', hstore'', ?_⟩
  simp only [Bind.bind, EStateM.bind, hrun]
  exact hrun'

theorem Computes.pure (core : Core Key) (value : α) :
    Computes params (fun _ ↦ pure value) core value core :=
  fun _ store hstore ↦ ⟨store, hstore, rfl⟩

theorem computes_lookup {name : ObjectName} {object : TreeObject}
    (h : core.objects name = some object) :
    Computes params (fun policy ↦ lookup policy name) core object core := by
  intro policy store hstore
  refine ⟨store, hstore, ?_⟩
  simp only [lookup, h]

theorem computes_assignObject (params : Params Key) (core : Core Key) (name : ObjectName)
    (object : Option TreeObject) :
    Computes params (fun policy ↦ assignObject policy name object) core ()
      { core with objects := Function.update core.objects name object } :=
  fun _ store hstore ↦ ⟨store, hstore, rfl⟩

/-- A new sentinel is a sentinel. -/
theorem isSentinel_sentinel (params : Params Key) :
    (RBNode.sentinel params).IsSentinel params :=
  rfl

theorem computes_create (core : Core Key) (name : ObjectName) (object : TreeObject) :
    Computes params (fun policy ↦ create policy name object) core ()
      { core with objects := Function.update core.objects name (some object) } := by
  intro policy store hstore
  refine ⟨policy.renew store name, fun other ↦ ?_, rfl⟩
  rcases policy.load_renew store name other with h | h
  · rw [h]
    exact isSentinel_sentinel params
  · rw [h]
    exact hstore other

end Programs

/-! ### Member functions -/

section Member

variable {core : Core Key} {shapes : ObjectName → Tree Key} {name : ObjectName}
  {object : TreeObject}

/-- The tree of an object fits into the heap without it. -/
theorem Core.Invariant.fits (h : core.Invariant params shapes) (nilNode : RBNode Key)
    (name : ObjectName) : Fits (core.background nilNode (shapes name)) (shapes name) :=
  ⟨h.nodup name, fun address hmem ↦ by
    rw [Core.background, Heap.cell_releaseAll, if_pos hmem]⟩

/-- The state a member function starts in is the layout of the tree of its object. -/
theorem Core.Invariant.enter (h : core.Invariant params shapes)
    (hobject : core.objects name = some object) (policy : SentinelPolicy params)
    (store : policy.Store) :
    (World.mk core store).enter policy name object =
      lay (core.background (policy.load store name) (shapes name)) (shapes name) := by
  obtain rfl := h.object name object hobject
  refine lay_ext (fun other ↦ ?_) rfl rfl rfl rfl rfl rfl
  rw [Core.background, Heap.cell_releaseAll]
  by_cases hmem : other ∈ (shapes name).addresses
  · rw [if_pos hmem, Option.or_none]
    exact h.present name other hmem
  · rw [if_neg hmem, Tree.cellAt_eq_none hmem, Option.none_or]
    rfl

/-- The sentinels after a member function has left a parent in its own. -/
theorem isSentinel_save {policy : SentinelPolicy params} {store : policy.Store}
    (hstore : ∀ name, (policy.load store name).IsSentinel params) (name : ObjectName)
    (parent : Ptr) (other : ObjectName) :
    (policy.load (policy.save store name { policy.load store name with parent := parent })
      other).IsSentinel params := by
  rcases policy.load_save store name { policy.load store name with parent := parent } other with
    hload | hload
  · rw [hload, RBNode.IsSentinel]
    conv_lhs => rw [hstore name]
  · rw [hload]
    exact hstore other

/-- A member function that transforms the tree of its object. -/
theorem Core.Invariant.computes_member (h : core.Invariant params shapes)
    (hobject : core.objects name = some object) {α : Type} {program : TreeM Key α} {value : α}
    {made freed : ℕ} {tree' : Tree Key} {nilNode : RBNode Key}
    (hrun : Transforms program (core.background nilNode (shapes name)) (shapes name) value made
      freed tree') :
    Computes params (fun policy ↦ member policy name program) core value
      (core.replace name (shapes name) made freed tree') := by
  intro policy store hstore
  have hnil : (policy.load store name).color = .black := by
    rw [hstore name]
    rfl
  obtain ⟨parent, hrun'⟩ := hrun (policy.load store name) hnil
  refine ⟨policy.save store name { policy.load store name with parent := parent },
    isSentinel_save hstore name parent, ?_⟩
  simp only [member, hobject, h.enter hobject]
  have hstart : lay (core.background (policy.load store name) (shapes name)) (shapes name) =
      lay ((core.background nilNode (shapes name)).withNil (policy.load store name))
        (shapes name) := rfl
  rw [hstart, hrun']
  rfl

/-- A tree that fits in the place of another takes over its nodes or has new ones. -/
theorem Core.old_or_free {nilNode : RBNode Key} {tree tree' : Tree Key}
    (hfits : Fits (core.background nilNode tree) tree') {address : ℕ}
    (hmem : address ∈ tree'.addresses) :
    address ∈ tree.addresses ∨ address ∉ core.heap.live := by
  have hfree := hfits.free address hmem
  rw [Core.background, Heap.cell_releaseAll] at hfree
  by_cases hold : address ∈ tree.addresses
  · exact Or.inl hold
  · rw [if_neg hold] at hfree
    exact Or.inr ((core.heap.cell_eq_none_iff address).mp hfree)

/-- The other trees keep out of the old and of the new tree of an object. -/
theorem Core.Invariant.apart (h : core.Invariant params shapes) {nilNode : RBNode Key}
    {tree' : Tree Key} (hfits : Fits (core.background nilNode (shapes name)) tree')
    {name' : ObjectName} (hne : name' ≠ name) {address : ℕ}
    (hmem : address ∈ (shapes name').addresses) :
    address ∉ tree'.addresses ∧ address ∉ (shapes name).addresses := by
  have hdisjoint := h.disjoint name' name hne address hmem
  refine ⟨fun hmem' ↦ ?_, hdisjoint⟩
  rcases Core.old_or_free hfits hmem' with hold | hfree
  · exact hdisjoint hold
  · exact hfree ((h.present name').live hmem)

/-- The number of live nodes after the tree of an object was replaced. -/
theorem Core.Invariant.card_replace (h : core.Invariant params shapes) {nilNode : RBNode Key}
    {tree' : Tree Key} (hfits : Fits (core.background nilNode (shapes name)) tree')
    (made freed : ℕ) :
    (core.replace name (shapes name) made freed tree').heap.live.card + (shapes name).size =
      core.heap.live.card + tree'.size := by
  have hsub : (shapes name).addresses.toFinset ⊆ core.heap.live := fun address hmem ↦
    (h.present name).live (List.mem_toFinset.mp hmem)
  have hdisjoint : Disjoint (core.heap.live \ (shapes name).addresses.toFinset)
      tree'.addresses.toFinset := by
    rw [Finset.disjoint_left]
    intro address hmem hmem'
    rw [Finset.mem_sdiff, List.mem_toFinset] at hmem
    rcases Core.old_or_free hfits (List.mem_toFinset.mp hmem') with hold | hfree
    · exact hmem.2 hold
    · exact hfree hmem.1
  have hcard := Finset.card_le_card hsub
  rw [List.toFinset_card_of_nodup (h.nodup name), Tree.length_addresses] at hcard
  rw [live_replace, Finset.card_union_of_disjoint hdisjoint, Finset.card_sdiff_of_subset hsub,
    List.toFinset_card_of_nodup (h.nodup name), List.toFinset_card_of_nodup hfits.nodup,
    Tree.length_addresses, Tree.length_addresses]
  omega

/-- The invariant after the tree of an object was replaced. -/
theorem Core.Invariant.replace (h : core.Invariant params shapes)
    {nilNode : RBNode Key} {made freed : ℕ} {tree' : Tree Key} (hgood : tree'.Good params.comp)
    (hfits : Fits (core.background nilNode (shapes name)) tree')
    (hcount : (shapes name).size + made = tree'.size + freed) :
    (core.replace name (shapes name) made freed tree').Invariant params
      (Function.update shapes name tree') where
  object name' object hobject := by
    by_cases hname : name' = name
    · subst hname
      rw [objects_replace, Function.update_self, Option.some.injEq] at hobject
      rw [Function.update_self, hobject]
    · rw [objects_replace, Function.update_of_ne hname] at hobject
      rw [Function.update_of_ne hname]
      exact h.object name' object hobject
  absent name' hobject := by
    by_cases hname : name' = name
    · subst hname
      rw [objects_replace, Function.update_self] at hobject
      cases hobject
    · rw [objects_replace, Function.update_of_ne hname] at hobject
      rw [Function.update_of_ne hname]
      exact h.absent name' hobject
  good := by
    rw [Function.forall_update_iff shapes fun _ tree ↦ tree.Good params.comp]
    exact ⟨hgood, fun name' _ ↦ h.good name'⟩
  nodup := by
    rw [Function.forall_update_iff shapes fun _ tree ↦ tree.addresses.Nodup]
    exact ⟨hfits.nodup, fun name' _ ↦ h.nodup name'⟩
  present name' address hmem := by
    by_cases hname : name' = name
    · rw [hname, Function.update_self] at hmem ⊢
      obtain ⟨node, hnode⟩ := Option.isSome_iff_exists.mp
        ((Tree.mem_addresses .nil _ _).mp hmem)
      rw [cell_replace, hnode, Option.some_or]
    · rw [Function.update_of_ne hname] at hmem ⊢
      obtain ⟨hnotNew, hnotOld⟩ := h.apart hfits hname hmem
      rw [cell_replace, Tree.cellAt_eq_none hnotNew, Option.none_or, if_neg hnotOld]
      exact h.present name' address hmem
  disjoint name₁ name₂ hne address hmem hmem' := by
    by_cases hname₁ : name₁ = name
    · rw [hname₁, Function.update_self] at hmem
      rw [Function.update_of_ne (hname₁ ▸ hne.symm)] at hmem'
      exact (h.apart hfits (hname₁ ▸ hne.symm) hmem').1 hmem
    · rw [Function.update_of_ne hname₁] at hmem
      by_cases hname₂ : name₂ = name
      · rw [hname₂, Function.update_self] at hmem'
        exact (h.apart hfits hname₁ hmem).1 hmem'
      · rw [Function.update_of_ne hname₂] at hmem'
        exact h.disjoint name₁ name₂ hne address hmem hmem'
  covered address hmem := by
    rw [live_replace, Finset.mem_union, Finset.mem_sdiff, List.mem_toFinset,
      List.mem_toFinset] at hmem
    rcases hmem with ⟨hlive, hold⟩ | hmem
    · obtain ⟨name', hmem'⟩ := h.covered address hlive
      have hname : name' ≠ name := by
        rintro rfl
        exact hold hmem'
      exact ⟨name', by rwa [Function.update_of_ne hname]⟩
    · exact ⟨name, by rwa [Function.update_self]⟩
  fuse := h.fuse
  counters := by
    have hcard := h.card_replace hfits made freed
    have hcounters := h.counters
    change core.allocated + made = core.freed + freed + _
    omega

/-- A member function that takes the tree of its object to another good tree. -/
theorem Core.Invariant.call (h : core.Invariant params shapes)
    (hobject : core.objects name = some object) {α : Type} {program : TreeM Key α} {value : α}
    {made freed : ℕ} {tree' : Tree Key} (hgood : tree'.Good params.comp)
    (hfits : Fits (core.background (.sentinel params) (shapes name)) tree')
    (hcount : (shapes name).size + made = tree'.size + freed)
    (hrun : Transforms program (core.background (.sentinel params) (shapes name)) (shapes name)
      value made freed tree') :
    ∃ core', core'.Invariant params (Function.update shapes name tree') ∧
      core'.objects = Function.update core.objects name (some ⟨tree'.ptr, tree'.size⟩) ∧
      Computes params (fun policy ↦ member policy name program) core value core' :=
  ⟨_, h.replace hgood hfits hcount, rfl, h.computes_member hobject hrun⟩

/-- A `Remove` that returns keeps the invariant, whatever `==` is. -/
theorem Core.Invariant.of_remove
    [IsStrictWeakOrder Key fun first second ↦ params.comp first second = true]
    (h : core.Invariant params shapes) (hobject : core.objects name = some object)
    {policy : SentinelPolicy params} {store : policy.Store}
    (hstore : ∀ name, (policy.load store name).IsSentinel params) {key : Key} {value : ℕ}
    {world' : World Key policy.Store}
    (hrun : member policy name (remove params key) ⟨core, store⟩ = .ok value world') :
    (∃ shapes', world'.core.Invariant params shapes') ∧
      (∃ object', world'.core.objects = Function.update core.objects name object') ∧
      ∀ other, (policy.load world'.sentinels other).IsSentinel params := by
  have hnil : (policy.load store name).color = .black := by
    rw [hstore name]
    rfl
  simp only [member, hobject, h.enter hobject] at hrun
  cases hremove : remove params key
    (lay (core.background (policy.load store name) (shapes name)) (shapes name)) with
  | error stop s =>
    rw [hremove] at hrun
    cases hrun
  | ok value' s =>
    rw [hremove] at hrun
    cases hrun
    obtain ⟨freed, parent, tree', hgood', hfits', hcount, rfl⟩ :=
      remove_returns (h.good name) (h.fits _ name) rfl hnil hremove
    have hsize : (shapes name).size + 0 = tree'.size + freed := hcount.symm
    exact ⟨⟨_, h.replace hgood' hfits' hsize⟩, ⟨_, rfl⟩, isSentinel_save hstore name parent⟩

/-- A member function that only reads. -/
theorem Core.Invariant.query (h : core.Invariant params shapes)
    (hobject : core.objects name = some object) {α : Type} {program : TreeM Key α} (value : α)
    (hrun : ∀ nilNode : RBNode Key, nilNode.color = .black →
      program (lay (core.background nilNode (shapes name)) (shapes name)) =
        .ok value (lay (core.background nilNode (shapes name)) (shapes name))) :
    ∃ core', core'.Invariant params shapes ∧ core'.objects = core.objects ∧
      Computes params (fun policy ↦ member policy name program) core value core' := by
  obtain ⟨core', hinv, hobjects, hcomputes⟩ := h.call hobject (h.good name) (h.fits _ name) rfl
    (show Transforms program (core.background (.sentinel params) (shapes name)) (shapes name)
      value 0 0 (shapes name) from .of_reads rfl hrun)
  rw [Function.update_eq_self] at hinv
  refine ⟨core', hinv, ?_, hcomputes⟩
  rw [hobjects, ← h.object name object hobject, ← hobject, Function.update_eq_self]

end Member

/-! ### Special members -/

section Special

variable {core : Core Key} {shapes : ObjectName → Tree Key} {name source : ObjectName}
  {object : TreeObject}

/-- Changing the objects only. -/
theorem Core.Invariant.setObjects (h : core.Invariant params shapes)
    (objects : ObjectName → Option TreeObject)
    (hobject : ∀ name object, objects name = some object →
      object = ⟨(shapes name).ptr, (shapes name).size⟩)
    (habsent : ∀ name, objects name = none → shapes name = .nil) :
    ({ core with objects := objects } : Core Key).Invariant params shapes :=
  ⟨hobject, habsent, h.good, h.nodup, h.present, h.disjoint, h.covered, h.fuse, h.counters⟩

/-- Exchanging the trees of two objects. -/
theorem Core.Invariant.exchange (h : core.Invariant params shapes) (first second : ObjectName)
    (objects : ObjectName → Option TreeObject)
    (hobject : ∀ name object, objects name = some object →
      object = ⟨(shapes (Equiv.swap first second name)).ptr,
        (shapes (Equiv.swap first second name)).size⟩)
    (habsent : ∀ name, objects name = none → shapes (Equiv.swap first second name) = .nil) :
    ({ core with objects := objects } : Core Key).Invariant params
      (fun name ↦ shapes (Equiv.swap first second name)) := by
  refine ⟨hobject, habsent, fun name ↦ h.good _, fun name ↦ h.nodup _, fun name ↦ h.present _,
    fun name name' hne ↦ h.disjoint _ _ ((Equiv.swap first second).injective.ne hne),
    fun address hlive ↦ ?_, h.fuse, h.counters⟩
  obtain ⟨name, hmem⟩ := h.covered address hlive
  exact ⟨Equiv.swap first second name, by rwa [Equiv.swap_apply_self]⟩

/-- The default constructor. -/
theorem Core.Invariant.construct (h : core.Invariant params shapes)
    (hname : core.objects name = none) :
    ∃ core', core'.Invariant params shapes ∧ core'.heap = core.heap ∧
      core'.objects = Function.update core.objects name (some ⟨.nil, 0⟩) ∧
      Computes params (fun policy ↦ RedBlackTree.construct policy name) core ()
        core' := by
  refine ⟨_, h.setObjects (Function.update core.objects name (some ⟨.nil, 0⟩))
    (fun other object hobject ↦ ?_) (fun other hobject ↦ ?_), rfl, rfl,
    computes_create core name ⟨.nil, 0⟩⟩
  · by_cases hother : other = name
    · rw [hother, Function.update_self, Option.some.injEq] at hobject
      rw [hother, h.absent name hname, ← hobject]
      rfl
    · rw [Function.update_of_ne hother] at hobject
      exact h.object other object hobject
  · by_cases hother : other = name
    · rw [hother, Function.update_self] at hobject
      cases hobject
    · rw [Function.update_of_ne hother] at hobject
      exact h.absent other hobject

/-- The copy constructor makes a tree of the same shape out of new nodes. -/
theorem Core.Invariant.copyConstruct (h : core.Invariant params shapes)
    (hname : core.objects name = none) (hsource : core.objects source = some object) :
    ∃ core' copy, (shapes source).SameShape copy ∧
      (∀ address ∈ copy.addresses, address ∉ core.heap.live) ∧
      core'.Invariant params (Function.update shapes name copy) ∧
      core'.objects = Function.update core.objects name (some ⟨copy.ptr, copy.size⟩) ∧
      Computes params (fun policy ↦ RedBlackTree.copyConstruct policy name source)
        core () core' := by
  have hne : source ≠ name := by
    rintro rfl
    rw [hname] at hsource
    cases hsource
  obtain ⟨core₁, hinv₁, hheap₁, hobjects₁, hcomputes₁⟩ := h.construct hname
  have hobject : core₁.objects name = some ⟨.nil, 0⟩ := by rw [hobjects₁, Function.update_self]
  have hsource₁ : core₁.objects source = some object := by
    rw [hobjects₁, Function.update_of_ne hne, hsource]
  have hshape : shapes name = .nil := h.absent name hname
  obtain ⟨copy, hsame, hfits, hrun⟩ := copy_spec params
    (show Present (core₁.background (.sentinel params) (shapes name)).heap .nil (shapes source) from
      (hinv₁.present source).congr fun other hmem ↦ by
      rw [Core.background, Heap.cell_releaseAll, hshape, if_neg (by simp)])
    (hinv₁.nodup source) hinv₁.fuse
  have hgood : copy.Good params.comp := by
    obtain ⟨⟨height, hbalanced⟩, hsorted⟩ := h.good source
    exact ⟨⟨height, hsame.balanced hbalanced⟩, hsame.sorted hsorted⟩
  obtain rfl := hinv₁.object source object hsource₁
  obtain ⟨core₂, hinv₂, hobjects₂, hcomputes₂⟩ := hinv₁.call hobject hgood hfits
    (show (shapes name).size + (shapes source).size = copy.size + 0 by
      rw [hshape, hsame.size_eq, Tree.size, Nat.zero_add, Nat.add_zero])
    (by rw [hshape] at hrun ⊢; exact hrun)
  refine ⟨core₂, copy, hsame, fun address hmem ↦ ?_, hinv₂, ?_, ?_⟩
  · have hnew := Core.old_or_free hfits hmem
    rw [hshape, hheap₁] at hnew
    exact hnew.resolve_left List.not_mem_nil
  · rw [hobjects₂, hobjects₁, Function.update_idem]
  · exact hcomputes₁.bind ((computes_lookup hsource₁).bind hcomputes₂)

/-- The move constructor takes the tree of its source. -/
theorem Core.Invariant.moveConstruct (h : core.Invariant params shapes)
    (hname : core.objects name = none) (hsource : core.objects source = some object) :
    ∃ core', core'.Invariant params (fun other ↦ shapes (Equiv.swap name source other)) ∧
      core'.objects = Function.update (Function.update core.objects source (some ⟨.nil, 0⟩)) name
        (some object) ∧
      Computes params (fun policy ↦ RedBlackTree.moveConstruct policy name source)
        core () core' := by
  have hne : source ≠ name := by
    rintro rfl
    rw [hname] at hsource
    cases hsource
  refine ⟨_, h.exchange name source (Function.update
    (Function.update core.objects source (some ⟨.nil, 0⟩)) name (some object))
    (fun other object' hobject ↦ ?_) (fun other hobject ↦ ?_), rfl,
    (computes_lookup hsource).bind ((computes_assignObject params core source (some ⟨.nil, 0⟩)).bind
      (computes_create _ name object))⟩
  · by_cases hother : other = name
    · rw [hother, Function.update_self, Option.some.injEq] at hobject
      rw [hother, Equiv.swap_apply_left, ← hobject]
      exact h.object source object hsource
    · rw [Function.update_of_ne hother] at hobject
      by_cases hother' : other = source
      · rw [hother', Function.update_self, Option.some.injEq] at hobject
        rw [hother', Equiv.swap_apply_right, h.absent name hname, ← hobject]
        rfl
      · rw [Function.update_of_ne hother'] at hobject
        rw [Equiv.swap_apply_of_ne_of_ne hother hother']
        exact h.object other object' hobject
  · by_cases hother : other = name
    · rw [hother, Function.update_self] at hobject
      cases hobject
    · rw [Function.update_of_ne hother] at hobject
      by_cases hother' : other = source
      · rw [hother', Function.update_self] at hobject
        cases hobject
      · rw [Function.update_of_ne hother'] at hobject
        rw [Equiv.swap_apply_of_ne_of_ne hother hother']
        exact h.absent other hobject

/-- `Swap` exchanges the trees. -/
theorem Core.Invariant.swap (h : core.Invariant params shapes) {object' : TreeObject}
    (hname : core.objects name = some object) (hsource : core.objects source = some object') :
    ∃ core', core'.Invariant params (fun other ↦ shapes (Equiv.swap name source other)) ∧
      core'.objects = Function.update (Function.update core.objects name (some object')) source
        (some object) ∧
      Computes params (fun policy ↦ RedBlackTree.swap policy name source) core ()
        core' := by
  refine ⟨_, h.exchange name source (Function.update
    (Function.update core.objects name (some object')) source (some object))
    (fun other object'' hobject ↦ ?_) (fun other hobject ↦ ?_), rfl,
    (computes_lookup hname).bind ((computes_lookup hsource).bind
      ((computes_assignObject params core name (some object')).bind
        (computes_assignObject params _ source (some object))))⟩
  · by_cases hother : other = source
    · rw [hother, Function.update_self, Option.some.injEq] at hobject
      rw [hother, Equiv.swap_apply_right, ← hobject]
      exact h.object name object hname
    · rw [Function.update_of_ne hother] at hobject
      by_cases hother' : other = name
      · rw [hother', Function.update_self, Option.some.injEq] at hobject
        rw [hother', Equiv.swap_apply_left, ← hobject]
        exact h.object source object' hsource
      · rw [Function.update_of_ne hother'] at hobject
        rw [Equiv.swap_apply_of_ne_of_ne hother' hother]
        exact h.object other object'' hobject
  · by_cases hother : other = source
    · rw [hother, Function.update_self] at hobject
      cases hobject
    · rw [Function.update_of_ne hother] at hobject
      by_cases hother' : other = name
      · rw [hother', Function.update_self] at hobject
        cases hobject
      · rw [Function.update_of_ne hother'] at hobject
        rw [Equiv.swap_apply_of_ne_of_ne hother' hother]
        exact h.absent other hobject

/-- The destructor frees the tree. -/
theorem Core.Invariant.destroy (h : core.Invariant params shapes)
    (hname : core.objects name = some object) :
    ∃ core', core'.Invariant params (Function.update shapes name .nil) ∧
      core'.objects = Function.update core.objects name none ∧
      Computes params (fun policy ↦ RedBlackTree.destroy policy name) core ()
        core' := by
  obtain ⟨core₁, hinv₁, hobjects₁, hcomputes₁⟩ := h.call hname (Tree.good_nil params.comp)
    ⟨by simp, by simp⟩
    (show (shapes name).size + 0 = Tree.size (.nil : Tree Key) + (shapes name).size by
      rw [Tree.size, Nat.zero_add, Nat.add_zero]) (clear_spec (h.fits _ name))
  refine ⟨_, hinv₁.setObjects (Function.update core.objects name none)
    (fun other object' hobject ↦ ?_) (fun other hobject ↦ ?_), rfl, ?_⟩
  · by_cases hother : other = name
    · rw [hother, Function.update_self] at hobject
      cases hobject
    · refine hinv₁.object other object' ?_
      rw [Function.update_of_ne hother] at hobject
      rw [hobjects₁, Function.update_of_ne hother, hobject]
  · by_cases hother : other = name
    · rw [hother, Function.update_self]
    · refine hinv₁.absent other ?_
      rw [Function.update_of_ne hother] at hobject
      rw [hobjects₁, Function.update_of_ne hother, hobject]
  · refine hcomputes₁.bind ?_
    have hassign := computes_assignObject params core₁ name none
    rw [hobjects₁, Function.update_idem] at hassign
    exact hassign

/-- The copy assignment operator gives its object a tree of the same shape as the source, out of
new nodes. -/
theorem Core.Invariant.copyAssign (h : core.Invariant params shapes)
    {object' : TreeObject} (htemporary : core.objects .temporary = none)
    (hname : core.objects name = some object) (hsource : core.objects source = some object') :
    ∃ core' copy, (shapes source).SameShape copy ∧
      (∀ address ∈ copy.addresses, address ∉ core.heap.live) ∧
      core'.Invariant params (Function.update shapes name copy) ∧
      core'.objects = Function.update core.objects name (some ⟨copy.ptr, copy.size⟩) ∧
      Computes params (fun policy ↦ RedBlackTree.copyAssign policy name source) core ()
        core' := by
  have hne : name ≠ .temporary := by
    rintro rfl
    rw [htemporary] at hname
    cases hname
  obtain ⟨core₁, copy, hsame, hnew, hinv₁, hobjects₁, hcomputes₁⟩ :=
    h.copyConstruct htemporary hsource
  have hname₁ : core₁.objects name = some object := by
    rw [hobjects₁, Function.update_of_ne hne, hname]
  have htemporary₁ : core₁.objects .temporary = some ⟨copy.ptr, copy.size⟩ := by
    rw [hobjects₁, Function.update_self]
  obtain ⟨core₂, hinv₂, hobjects₂, hcomputes₂⟩ := hinv₁.swap hname₁ htemporary₁
  have htemporary₂ : core₂.objects .temporary = some object := by
    rw [hobjects₂, Function.update_self]
  obtain ⟨core₃, hinv₃, hobjects₃, hcomputes₃⟩ := hinv₂.destroy htemporary₂
  have hshapes : Function.update (fun other ↦ Function.update shapes .temporary copy
      (Equiv.swap name .temporary other)) .temporary .nil = Function.update shapes name copy := by
    funext other
    by_cases hother : other = .temporary
    · rw [hother, Function.update_self, Function.update_of_ne hne.symm,
        h.absent .temporary htemporary]
    rw [Function.update_of_ne hother]
    by_cases hother' : other = name
    · rw [hother', Equiv.swap_apply_left, Function.update_self, Function.update_self]
    · rw [Equiv.swap_apply_of_ne_of_ne hother' hother, Function.update_of_ne hother,
        Function.update_of_ne hother']
  refine ⟨core₃, copy, hsame, hnew, hshapes ▸ hinv₃, ?_,
    hcomputes₁.bind (hcomputes₂.bind hcomputes₃)⟩
  rw [hobjects₃, hobjects₂, hobjects₁]
  funext other
  by_cases hother : other = .temporary
  · rw [hother, Function.update_self, Function.update_of_ne hne.symm, htemporary]
  rw [Function.update_of_ne hother, Function.update_of_ne hother]
  by_cases hother' : other = name
  · rw [hother', Function.update_self, Function.update_self]
  · rw [Function.update_of_ne hother', Function.update_of_ne hother, Function.update_of_ne hother']

/-- The move assignment operator gives its object the tree of the source. -/
theorem Core.Invariant.moveAssign (h : core.Invariant params shapes) {object' : TreeObject}
    (htemporary : core.objects .temporary = none) (hname : core.objects name = some object)
    (hsource : core.objects source = some object') :
    ∃ core', core'.Invariant params
        (Function.update (Function.update shapes source .nil) name (shapes source)) ∧
      core'.objects = Function.update (Function.update core.objects source (some ⟨.nil, 0⟩)) name
        (some object') ∧
      Computes params (fun policy ↦ RedBlackTree.moveAssign policy name source) core ()
        core' := by
  have hne : name ≠ .temporary := by
    rintro rfl
    rw [htemporary] at hname
    cases hname
  have hne' : source ≠ .temporary := by
    rintro rfl
    rw [htemporary] at hsource
    cases hsource
  obtain ⟨core₁, hinv₁, hobjects₁, hcomputes₁⟩ := h.moveConstruct htemporary hsource
  obtain ⟨object₁, hname₁⟩ : ∃ object₁, core₁.objects name = some object₁ := by
    rw [hobjects₁, Function.update_of_ne hne]
    by_cases hsame : name = source
    · exact ⟨_, by rw [hsame, Function.update_self]⟩
    · exact ⟨object, by rw [Function.update_of_ne hsame, hname]⟩
  have htemporary₁ : core₁.objects .temporary = some object' := by
    rw [hobjects₁, Function.update_self]
  obtain ⟨core₂, hinv₂, hobjects₂, hcomputes₂⟩ := hinv₁.swap hname₁ htemporary₁
  have htemporary₂ : core₂.objects .temporary = some object₁ := by
    rw [hobjects₂, Function.update_self]
  obtain ⟨core₃, hinv₃, hobjects₃, hcomputes₃⟩ := hinv₂.destroy htemporary₂
  have hshapes : Function.update (fun other ↦ shapes (Equiv.swap .temporary source
      (Equiv.swap name .temporary other))) .temporary .nil =
        Function.update (Function.update shapes source .nil) name (shapes source) := by
    funext other
    by_cases hother : other = .temporary
    · rw [hother, Function.update_self, Function.update_of_ne hne.symm,
        Function.update_of_ne hne'.symm, h.absent .temporary htemporary]
    rw [Function.update_of_ne hother]
    by_cases hother' : other = name
    · rw [hother', Equiv.swap_apply_left, Equiv.swap_apply_left, Function.update_self]
    rw [Equiv.swap_apply_of_ne_of_ne hother' hother, Function.update_of_ne hother']
    by_cases hsource' : other = source
    · rw [hsource', Equiv.swap_apply_right, Function.update_self, h.absent .temporary htemporary]
    · rw [Equiv.swap_apply_of_ne_of_ne hother hsource', Function.update_of_ne hsource']
  refine ⟨core₃, hshapes ▸ hinv₃, ?_, hcomputes₁.bind (hcomputes₂.bind hcomputes₃)⟩
  rw [hobjects₃, hobjects₂, hobjects₁]
  funext other
  by_cases hother : other = .temporary
  · rw [hother, Function.update_self, Function.update_of_ne hne.symm,
      Function.update_of_ne hne'.symm, htemporary]
  rw [Function.update_of_ne hother, Function.update_of_ne hother]
  by_cases hother' : other = name
  · rw [hother', Function.update_self, Function.update_self]
  · rw [Function.update_of_ne hother', Function.update_of_ne hother, Function.update_of_ne hother']

end Special

/-! ### Every operation -/

section Operations

variable {core : Core Key} {shapes : ObjectName → Tree Key}

/-- An operation ends in a state of the invariant with the same result under every policy. -/
def Succeeds (params : Params Key) (core : Core Key) (op : Op Key) : Prop :=
  ∃ output core' shapes', core'.Invariant params shapes' ∧ core'.objects .temporary = none ∧
    Computes params (fun policy ↦ exec policy op) core output core'

/-- A position of an object is a node of its tree. -/
theorem Core.Invariant.mem_of_holds (h : core.Invariant params shapes) {name : ℕ} {ptr : Ptr}
    (hholds : core.Holds name ptr) : ∃ object address,
      core.objects (.named name) = some object ∧ ptr = .node address ∧
        address ∈ (shapes (.named name)).addresses := by
  obtain ⟨object, address, hobject, hptr, hreach⟩ := hholds
  refine ⟨object, address, hobject, hptr, ?_⟩
  rw [h.object _ _ hobject] at hreach
  exact (((h.present _).represents (h.nodup _)).reaches_iff address).mp hreach

/-- A member function call whose result is wrapped up. -/
theorem Succeeds.of_call {α : Type} {op : Op Key} {name : ℕ} {program : TreeM Key α}
    {value : α} {core' : Core Key} {shapes' : ObjectName → Tree Key}
    (wrap : α → Output Key) (htemporary : core.objects .temporary = none)
    (hexec : ∀ policy : SentinelPolicy params, exec policy op =
      member policy (.named name) program >>= fun value ↦ pure (wrap value))
    (hinv : core'.Invariant params shapes')
    (hobjects : core'.objects .temporary = core.objects .temporary)
    (hcomputes : Computes params
      (fun policy ↦ member policy (.named name) program) core value core') :
    Succeeds params core op := by
  refine ⟨wrap value, core', shapes', hinv, hobjects.trans htemporary, ?_⟩
  simp only [hexec]
  exact hcomputes.bind (Computes.pure core' (wrap value))

/-- A query whose result is wrapped up. -/
theorem Succeeds.of_query {α : Type} {op : Op Key} {name : ℕ} {program : TreeM Key α}
    {object : TreeObject} (value : α) (wrap : α → Output Key) (h : core.Invariant params shapes)
    (htemporary : core.objects .temporary = none)
    (hobject : core.objects (.named name) = some object)
    (hexec : ∀ policy : SentinelPolicy params, exec policy op =
      member policy (.named name) program >>= fun value ↦ pure (wrap value))
    (hrun : ∀ background : State Key, Fits background (shapes (.named name)) →
      background.size = (shapes (.named name)).size →
        program (lay background (shapes (.named name))) =
          .ok value (lay background (shapes (.named name)))) : Succeeds params core op := by
  obtain ⟨core', hinv, hobjects, hcomputes⟩ := h.query hobject value
    fun nilNode _ ↦ hrun _ (h.fits nilNode _) rfl
  exact .of_call wrap htemporary hexec hinv (congrFun hobjects _) hcomputes

/-- A special member, which returns nothing. -/
theorem Succeeds.of_special {op : Op Key} {core' : Core Key} {shapes' : ObjectName → Tree Key}
    {program : ∀ policy : SentinelPolicy params, WorldM Key policy.Store Unit}
    (hexec : ∀ policy : SentinelPolicy params, exec policy op =
      program policy >>= fun _ ↦ pure Output.unit)
    (hinv : core'.Invariant params shapes') (htemporary : core'.objects .temporary = none)
    (hcomputes : Computes params program core () core') : Succeeds params core op := by
  refine ⟨.unit, core', shapes', hinv, htemporary, ?_⟩
  simp only [hexec]
  exact hcomputes.bind (Computes.pure core' Output.unit)

/-- A name that no object has. -/
theorem Core.objects_of_not_exists {name : ℕ} (h : ¬core.Exists name) :
    core.objects (.named name) = none := by
  by_contra hobject
  exact h (Option.ne_none_iff_exists'.mp hobject)

/-- A change of a named object leaves the temporary one alone. -/
theorem Core.objects_temporary {core' : Core Key} {name : ℕ} {object : Option TreeObject}
    (h : core'.objects = Function.update core.objects (.named name) object) :
    core'.objects .temporary = core.objects .temporary := by
  rw [h, Function.update_of_ne (by simp)]

section Unordered

variable (h : core.Invariant params shapes) (htemporary : core.objects .temporary = none)
include h htemporary

theorem Core.Invariant.succeeds_construct {name : ℕ} (hname : ¬core.Exists name) :
    Succeeds params core (.construct name) := by
  obtain ⟨core', hinv, -, hobjects, hcomputes⟩ := h.construct (core.objects_of_not_exists hname)
  exact .of_special (fun _ ↦ rfl) hinv ((core.objects_temporary hobjects).trans htemporary)
    hcomputes

theorem Core.Invariant.succeeds_copyConstruct {name source : ℕ} (hname : ¬core.Exists name)
    (hsource : core.Exists source) : Succeeds params core (.copyConstruct name source) := by
  obtain ⟨object, hobject⟩ := hsource
  obtain ⟨core', copy, -, -, hinv, hobjects, hcomputes⟩ :=
    h.copyConstruct (core.objects_of_not_exists hname) hobject
  exact .of_special (fun _ ↦ rfl) hinv ((core.objects_temporary hobjects).trans htemporary)
    hcomputes

theorem Core.Invariant.succeeds_moveConstruct {name source : ℕ} (hname : ¬core.Exists name)
    (hsource : core.Exists source) : Succeeds params core (.moveConstruct name source) := by
  obtain ⟨object, hobject⟩ := hsource
  obtain ⟨core', hinv, hobjects, hcomputes⟩ :=
    h.moveConstruct (core.objects_of_not_exists hname) hobject
  refine .of_special (fun _ ↦ rfl) hinv ?_ hcomputes
  rw [hobjects, Function.update_of_ne (by simp), Function.update_of_ne (by simp), htemporary]

theorem Core.Invariant.succeeds_destroy {name : ℕ} (hname : core.Exists name) :
    Succeeds params core (.destroy name) := by
  obtain ⟨object, hobject⟩ := hname
  obtain ⟨core', hinv, hobjects, hcomputes⟩ := h.destroy hobject
  exact .of_special (fun _ ↦ rfl) hinv ((core.objects_temporary hobjects).trans htemporary)
    hcomputes

theorem Core.Invariant.succeeds_copyAssign {name source : ℕ} (hname : core.Exists name)
    (hsource : core.Exists source) : Succeeds params core (.copyAssign name source) := by
  obtain ⟨object, hobject⟩ := hname
  obtain ⟨object', hobject'⟩ := hsource
  obtain ⟨core', copy, -, -, hinv, hobjects, hcomputes⟩ :=
    h.copyAssign htemporary hobject hobject'
  exact .of_special (fun _ ↦ rfl) hinv ((core.objects_temporary hobjects).trans htemporary)
    hcomputes

theorem Core.Invariant.succeeds_moveAssign {name source : ℕ} (hname : core.Exists name)
    (hsource : core.Exists source) : Succeeds params core (.moveAssign name source) := by
  obtain ⟨object, hobject⟩ := hname
  obtain ⟨object', hobject'⟩ := hsource
  obtain ⟨core', hinv, hobjects, hcomputes⟩ := h.moveAssign htemporary hobject hobject'
  refine .of_special (fun _ ↦ rfl) hinv ?_ hcomputes
  rw [hobjects, Function.update_of_ne (by simp), Function.update_of_ne (by simp), htemporary]

theorem Core.Invariant.succeeds_swap {first second : ℕ} (hfirst : core.Exists first)
    (hsecond : core.Exists second) : Succeeds params core (.swap first second) := by
  obtain ⟨object, hobject⟩ := hfirst
  obtain ⟨object', hobject'⟩ := hsecond
  obtain ⟨core', hinv, hobjects, hcomputes⟩ := h.swap hobject hobject'
  refine .of_special (fun _ ↦ rfl) hinv ?_ hcomputes
  rw [hobjects, Function.update_of_ne (by simp), Function.update_of_ne (by simp), htemporary]

theorem Core.Invariant.succeeds_erase {name : ℕ} {pos : Iterator} (hname : core.Exists name)
    (hpos : pos = endIterator ∨ core.Holds name pos.node) :
    Succeeds params core (.erase name pos) := by
  obtain ⟨object, hobject⟩ := hname
  rcases hpos with rfl | hholds
  · exact .of_query _ .position h htemporary hobject (fun _ ↦ rfl)
      fun background _ _ ↦ erase_end (lay background _)
  · obtain ⟨ptr, sentinel⟩ := pos
    obtain ⟨object', address, -, rfl, hmem⟩ := h.mem_of_holds hholds
    obtain ⟨entry, hentry, rfl⟩ := List.mem_map.mp hmem
    obtain ⟨smaller, greater, hcut⟩ := List.append_of_mem hentry
    obtain ⟨next, tree', hgood', hfits', -, hsize, -, -, hrun⟩ :=
      erase_spec_any (h.good _) (h.fits (.sentinel params) (.named name)) rfl hcut sentinel
    obtain ⟨core', hinv, hobjects, hcomputes⟩ := h.call hobject hgood' hfits' (by omega) hrun
    exact .of_call .position htemporary (fun _ ↦ rfl) hinv (core.objects_temporary hobjects)
      hcomputes

theorem Core.Invariant.succeeds_clear {name : ℕ} (hname : core.Exists name) :
    Succeeds params core (.clear name) := by
  obtain ⟨object, hobject⟩ := hname
  obtain ⟨core', hinv, hobjects, hcomputes⟩ := h.call hobject (Tree.good_nil params.comp)
    ⟨by simp, by simp⟩ (by rw [Tree.size, Nat.zero_add, Nat.add_zero])
    (clear_spec (h.fits (.sentinel params) (.named name)))
  exact .of_call (fun _ ↦ .unit) htemporary (fun _ ↦ rfl) hinv (core.objects_temporary hobjects)
    hcomputes

theorem Core.Invariant.succeeds_next {name : ℕ} {pos : Iterator} (hname : core.Exists name)
    (hpos : pos = endIterator ∨ pos.nil = .nil ∧ core.Holds name pos.node) :
    Succeeds params core (.next name pos) := by
  obtain ⟨object, hobject⟩ := hname
  rcases hpos with rfl | ⟨hsentinel, hholds⟩
  · exact .of_query endIterator .position h htemporary hobject (fun _ ↦ rfl)
      fun background _ _ ↦ rfl
  · obtain ⟨ptr, sentinel⟩ := pos
    obtain rfl : sentinel = .nil := hsentinel
    obtain ⟨object', address, -, rfl, hmem⟩ := h.mem_of_holds hholds
    obtain ⟨entry, hentry, rfl⟩ := List.mem_map.mp hmem
    obtain ⟨color, left, right, frames, hshape⟩ := exists_focus hentry
    refine .of_query ⟨landing .nil
        ((right.duplicate params.eq).or (right.inorder ++ after frames).head?), .nil⟩
      .position h htemporary hobject (fun _ ↦ rfl) fun background hfits _ ↦ ?_
    rw [hshape] at hfits ⊢
    exact increment_run hfits

theorem Core.Invariant.succeeds_deref {name : ℕ} {pos : Iterator}
    (hholds : core.Holds name pos.node) : Succeeds params core (.deref name pos) := by
  obtain ⟨ptr, sentinel⟩ := pos
  obtain ⟨object, address, hobject, rfl, hmem⟩ := h.mem_of_holds hholds
  obtain ⟨entry, hentry, rfl⟩ := List.mem_map.mp hmem
  exact .of_query _ .key h htemporary hobject (fun _ ↦ rfl) fun background hfits _ ↦
    deref_lay hfits hentry sentinel

end Unordered

section Ordered

variable [IsStrictWeakOrder Key fun first second ↦ params.comp first second = true]
  (h : core.Invariant params shapes) (htemporary : core.objects .temporary = none)
include h htemporary

theorem Core.Invariant.succeeds_insert {name : ℕ} (hname : core.Exists name) (key : Key) :
    Succeeds params core (.insert name key) := by
  obtain ⟨object, hobject⟩ := hname
  have hfits := h.fits (.sentinel params) (.named name)
  by_cases hcontains : (h.good (.named name)).set.contains key = true
  · obtain ⟨-, hrun⟩ := insert_spec_present (h.good _) hfits h.fuse rfl hcontains
    obtain ⟨core', hinv, hobjects, hcomputes⟩ := h.call hobject (h.good _) hfits rfl hrun
    exact .of_call .position htemporary (fun _ ↦ rfl) hinv (core.objects_temporary hobjects)
      hcomputes
  · obtain ⟨address, tree', hgood', hfits', -, hsize, -, hrun⟩ :=
      insert_spec_absent (h.good _) hfits h.fuse rfl (by simpa using hcontains)
    obtain ⟨core', hinv, hobjects, hcomputes⟩ := h.call hobject hgood' hfits' (by omega) hrun
    exact .of_call .position htemporary (fun _ ↦ rfl) hinv (core.objects_temporary hobjects)
      hcomputes

/-- `Remove` from a tree in which the shortcut of `GetSuccessor` is never taken. -/
theorem Core.Invariant.succeeds_remove {name : ℕ} (hname : core.Exists name)
    (hplain : (shapes (.named name)).NoShortcut params.eq) (key : Key) :
    Succeeds params core (.remove name key) := by
  obtain ⟨object, hobject⟩ := hname
  obtain ⟨count, tree', hgood', hfits', -, hsize, -, hrun⟩ :=
    remove_spec (h.good _) hplain (h.fits (.sentinel params) (.named name)) rfl key
  obtain ⟨core', hinv, hobjects, hcomputes⟩ := h.call hobject hgood' hfits' (by omega) hrun
  exact .of_call .count htemporary (fun _ ↦ rfl) hinv (core.objects_temporary hobjects) hcomputes

/-- Every operation whose precondition holds succeeds, whatever `==` is, with the exception of
`Remove`. -/
theorem exec_computes_of_ne_remove {op : Op Key} (hop : ∀ name key, op ≠ .remove name key)
    (hvalid : op.Valid core) : Succeeds params core op := by
  cases op with
  | construct name => exact h.succeeds_construct htemporary hvalid
  | copyConstruct name source => exact h.succeeds_copyConstruct htemporary hvalid.1 hvalid.2
  | moveConstruct name source => exact h.succeeds_moveConstruct htemporary hvalid.1 hvalid.2
  | destroy name => exact h.succeeds_destroy htemporary hvalid
  | copyAssign name source => exact h.succeeds_copyAssign htemporary hvalid.1 hvalid.2
  | moveAssign name source => exact h.succeeds_moveAssign htemporary hvalid.1 hvalid.2
  | swap first second => exact h.succeeds_swap htemporary hvalid.1 hvalid.2
  | insert name key => exact h.succeeds_insert htemporary hvalid key
  | remove name key => exact absurd rfl (hop name key)
  | erase name pos => exact h.succeeds_erase htemporary hvalid.1 hvalid.2
  | clear name => exact h.succeeds_clear htemporary hvalid
  | find name key =>
    obtain ⟨object, hname⟩ := hvalid
    exact .of_query _ .position h htemporary hname (fun _ ↦ rfl) fun background hfits _ ↦
      bind_ok (findNode_lay (h.good _).sorted hfits)
  | lowerBound name key =>
    obtain ⟨object, hname⟩ := hvalid
    exact .of_query _ .position h htemporary hname (fun _ ↦ rfl) fun background hfits _ ↦
      lowerBound_lay (h.good _).sorted hfits
  | upperBound name key =>
    obtain ⟨object, hname⟩ := hvalid
    exact .of_query _ .position h htemporary hname (fun _ ↦ rfl) fun background hfits _ ↦
      upperBound_lay (h.good _).sorted hfits
  | begin name =>
    obtain ⟨object, hname⟩ := hvalid
    exact .of_query _ .position h htemporary hname (fun _ ↦ rfl) fun background hfits _ ↦
      begin_lay hfits
  | next name pos => exact h.succeeds_next htemporary hvalid.1 hvalid.2
  | deref name pos => exact h.succeeds_deref htemporary hvalid
  | empty name =>
    obtain ⟨object, hname⟩ := hvalid
    exact .of_query (decide ((shapes (.named name)).ptr = .nil)) .flag h htemporary hname
      (fun _ ↦ rfl) fun background _ _ ↦ rfl
  | size name =>
    obtain ⟨object, hname⟩ := hvalid
    exact .of_query (shapes (.named name)).size .count h htemporary hname (fun _ ↦ rfl)
      fun background _ hsize ↦ congrArg (EStateM.Result.ok · (lay background _)) hsize

end Ordered

/-- Every operation whose precondition holds succeeds. -/
theorem exec_computes [params.Lawful] (h : core.Invariant params shapes)
    (htemporary : core.objects .temporary = none) {op : Op Key} (hvalid : op.Valid core) :
    Succeeds params core op := by
  by_cases hremove : ∃ name key, op = .remove name key
  · obtain ⟨name, key, rfl⟩ := hremove
    exact h.succeeds_remove htemporary hvalid (h.good _).sorted.noShortcut key
  · exact exec_computes_of_ne_remove h htemporary
      (fun name key hop ↦ hremove ⟨name, key, hop⟩) hvalid

end Operations

end StudStuff.RedBlackTree
