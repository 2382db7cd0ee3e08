import Mathlib.Tactic.SplitIfs
import StudStuff.RedBlackTree.Copying
import StudStuff.RedBlackTree.Erasure

/-!
# The operations as operations on an ordered set

A well formed tree (`Tree.Good`: balanced with a black root, and sorted) stands for the ordered set
of its keys. Each mutating operation takes a good tree over a background to a good tree over the
background with other counters, and the set changes as `OrderedSet.insert` and `OrderedSet.remove`
say. In every statement the new tree and the value returned are fixed before the sentinel: what an
operation does to a tree is the same whatever the sentinel holds besides its colour.
-/

set_option autoImplicit false
set_option relaxedAutoImplicit false

namespace StudStuff.RedBlackTree

open Lib

variable {Key : Type}

/-- A balanced tree with a black root whose keys are in order. -/
structure Tree.Good (comp : Key → Key → Bool) (tree : Tree Key) : Prop where
  balanced : ∃ height, Balanced tree .black height
  sorted : tree.Sorted comp

/-- The empty tree is good. -/
theorem Tree.good_nil (comp : Key → Key → Bool) : (nil : Tree Key).Good comp :=
  ⟨⟨0, .nil⟩, .nil⟩

/-- The set of the keys of a good tree. -/
def Tree.Good.set {comp : Key → Key → Bool} {tree : Tree Key} (h : tree.Good comp) :
    OrderedSet comp :=
  tree.orderedSet h.sorted

@[simp] theorem Tree.Good.elements_set {comp : Key → Key → Bool} {tree : Tree Key}
    (h : tree.Good comp) : h.set.elements = tree.keys :=
  rfl

/-- The background with another sentinel. -/
def State.withNil (background : State Key) (nilNode : RBNode Key) : State Key :=
  { background with nilNode := nilNode }

theorem Fits.withNil {background : State Key} {tree : Tree Key} (h : Fits background tree)
    (nilNode : RBNode Key) : Fits (background.withNil nilNode) tree :=
  ⟨h.nodup, h.free⟩

/-- The background after an operation that made and freed some nodes and left a parent in the
sentinel. -/
def State.after (background : State Key) (made freed count : ℕ) (parent : Ptr) : State Key :=
  { background with
    nilNode := { background.nilNode with parent := parent }
    allocated := background.allocated + made
    freed := background.freed + freed
    size := count }

theorem State.after_after (background : State Key) (freed freed' count count' : ℕ)
    (parent parent' : Ptr) :
    (background.after 0 freed count parent).after 0 freed' count' parent' =
      background.after 0 (freed + freed') count' parent' := by
  simp [after, Nat.add_assoc]

/-- A program turns a tree over a background into another tree and returns a value, whatever the
sentinel holds besides its colour. -/
def Transforms {α : Type} (program : TreeM Key α) (background : State Key) (tree : Tree Key)
    (value : α) (made freed : ℕ) (tree' : Tree Key) : Prop :=
  ∀ nilNode : RBNode Key, nilNode.color = .black → ∃ parent,
    program (lay (background.withNil nilNode) tree) =
      .ok value (lay ((background.withNil nilNode).after made freed tree'.size parent) tree')

/-- A program that only reads. -/
theorem Transforms.of_reads {α : Type} {program : TreeM Key α} {background : State Key}
    {tree : Tree Key} {value : α} (hsize : background.size = tree.size)
    (hrun : ∀ nilNode : RBNode Key, nilNode.color = .black →
      program (lay (background.withNil nilNode) tree) =
        .ok value (lay (background.withNil nilNode) tree)) :
    Transforms program background tree value 0 0 tree := by
  intro nilNode hnil
  refine ⟨nilNode.parent, (hrun nilNode hnil).trans ?_⟩
  rw [← hsize]
  rfl

/-- A tree whose listing is a part of the old one fits. -/
theorem Fits.of_sublist {background : State Key} {tree tree' : Tree Key} (h : Fits background tree)
    (hlist : tree'.inorder.Sublist tree.inorder) : Fits background tree' := by
  have hsub : tree'.addresses.Sublist tree.addresses := hlist.map Prod.fst
  exact ⟨h.nodup.sublist hsub, fun address hmem ↦ h.free address (hsub.subset hmem)⟩

section Specifications

variable {params : Params Key}
  [IsStrictWeakOrder Key fun first second ↦ params.comp first second = true]
  {background : State Key} {tree : Tree Key}

omit [IsStrictWeakOrder Key fun first second ↦ params.comp first second = true] in
/-- A class is in the set of a tree if one of the entries has an equivalent key. -/
theorem Tree.Good.contains_iff (hgood : tree.Good params.comp) (key : Key) :
    hgood.set.contains key = true ↔
      ∃ entry ∈ tree.inorder, equivalent params.comp key entry.2 = true := by
  rw [OrderedSet.contains, hgood.elements_set, List.any_eq_true, Tree.keys]
  simp only [List.mem_map]
  constructor
  · rintro ⟨_, ⟨entry, hmem, rfl⟩, hentry⟩
    exact ⟨entry, hmem, hentry⟩
  · rintro ⟨entry, hmem, hentry⟩
    exact ⟨_, ⟨entry, hmem, rfl⟩, hentry⟩

/-- `Insert` into a tree that has an equivalent key. -/
theorem insert_spec_present (hgood : tree.Good params.comp) (hfits : Fits background tree)
    (hfuse : background.fuse = none) (hsize : background.size = tree.size) {key : Key}
    (hcontains : hgood.set.contains key = true) :
    hgood.set.insert key = hgood.set ∧
      Transforms (insert params key) background tree endIterator 0 0 tree := by
  refine ⟨by rw [OrderedSet.insert, if_pos hcontains], .of_reads hsize fun nilNode _ ↦ ?_⟩
  obtain ⟨entry, hmem, hentry⟩ := (hgood.contains_iff key).mp hcontains
  exact insert_present hgood.sorted (hfits.withNil nilNode) hfuse hmem hentry

omit [IsStrictWeakOrder Key fun first second ↦ params.comp first second = true] in
/-- A class that is not in the set of a tree has no entry. -/
theorem Tree.Good.not_equivalent (hgood : tree.Good params.comp) {key : Key}
    (hcontains : hgood.set.contains key = false) :
    ∀ entry ∈ tree.inorder, equivalent params.comp key entry.2 = false := by
  intro entry hmem
  by_contra hentry
  rw [(hgood.contains_iff key).mpr ⟨entry, hmem, by simpa using hentry⟩] at hcontains
  cases hcontains

/-- `Insert` of a key without an equivalent one puts one entry into the listing. -/
theorem insert_listing (hgood : tree.Good params.comp) (hfits : Fits background tree)
    (hfuse : background.fuse = none) (hsize : background.size = tree.size) {key : Key}
    (habsent : ∀ entry ∈ tree.inorder, equivalent params.comp key entry.2 = false) :
    ∃ address tree' smaller greater, tree'.Good params.comp ∧ Fits background tree' ∧
      tree.inorder = smaller ++ greater ∧ tree'.inorder = smaller ++ (address, key) :: greater ∧
      (∀ entry ∈ smaller, params.comp entry.2 key = true) ∧
      (∀ entry ∈ greater, params.comp key entry.2 = true) ∧ tree'.size = tree.size + 1 ∧
      Transforms (insert params key) background tree ⟨.node address, .nil⟩ 1 0 tree' := by
  obtain ⟨height, hbalanced⟩ := hgood.balanced
  obtain ⟨tree', height', smaller, greater, hbalanced', hcut, hlist, hsmaller, hgreater, hrun⟩ :=
    insert_absent hgood.sorted hbalanced habsent ((lay background tree).nextAddress params)
  have hfresh := cell_nextAddress (lay background tree) params
  set address := (lay background tree).nextAddress params with haddress
  have hset : (hgood.set.insert key).elements =
      smaller.map Prod.snd ++ key :: greater.map Prod.snd :=
    OrderedSet.elements_insert_of_cut (by simp [Tree.keys, hcut])
      (by simpa using fun other a h ↦ hsmaller (a, other) h)
      (by simpa using fun other a h ↦ hgreater (a, other) h)
  have hgood' : tree'.Good params.comp := ⟨⟨height', hbalanced'⟩, by
    rw [Tree.Sorted, Tree.keys, hlist, List.map_append, List.map_cons, ← hset]
    exact (hgood.set.insert key).sorted⟩
  have hsize' : tree'.size = tree.size + 1 := by
    rw [← Tree.length_inorder, ← Tree.length_inorder, hcut, hlist]
    simp only [List.length_append, List.length_cons]
    omega
  have hfree : background.heap.cell address = none ∧ address ∉ tree.addresses := by
    rw [cell_lay, Option.or_eq_none_iff] at hfresh
    refine ⟨hfresh.2, fun hmem ↦ ?_⟩
    rw [Tree.mem_addresses .nil, hfresh.1] at hmem
    cases hmem
  have hfits' : Fits background tree' := by
    have hnodup := hfits.nodup
    have hold := hfits.free
    simp only [Tree.addresses, hcut, List.map_append, List.nodup_append, List.mem_append]
      at hnodup hold hfree
    refine ⟨?_, ?_⟩ <;>
      simp only [Tree.addresses, hlist, List.map_append, List.map_cons, List.nodup_append,
        List.nodup_cons, List.mem_append, List.mem_cons] <;> grind
  refine ⟨address, tree', smaller, greater, hgood', hfits', hcut, hlist, hsmaller, hgreater, hsize',
    fun nilNode hnil ↦ ⟨nilNode.parent, ?_⟩⟩
  refine (hrun (background.withNil nilNode) (hfits.withNil nilNode) hfuse hnil rfl).trans ?_
  rw [hsize', ← hsize]
  rfl

/-- `Insert` into a tree that has no equivalent key. -/
theorem insert_spec_absent (hgood : tree.Good params.comp) (hfits : Fits background tree)
    (hfuse : background.fuse = none) (hsize : background.size = tree.size) {key : Key}
    (hcontains : hgood.set.contains key = false) :
    ∃ address tree', ∃ hgood' : tree'.Good params.comp, Fits background tree' ∧
      hgood'.set = hgood.set.insert key ∧ tree'.size = tree.size + 1 ∧
      (address, key) ∈ tree'.inorder ∧
      Transforms (insert params key) background tree ⟨.node address, .nil⟩ 1 0 tree' := by
  obtain ⟨address, tree', smaller, greater, hgood', hfits', hcut, hlist, hsmaller, hgreater, hsize',
    hrun⟩ := insert_listing hgood hfits hfuse hsize (hgood.not_equivalent hcontains)
  have hset : (hgood.set.insert key).elements =
      smaller.map Prod.snd ++ key :: greater.map Prod.snd :=
    OrderedSet.elements_insert_of_cut (by simp [Tree.keys, hcut])
      (by simpa using fun other a h ↦ hsmaller (a, other) h)
      (by simpa using fun other a h ↦ hgreater (a, other) h)
  refine ⟨address, tree', hgood', hfits', OrderedSet.ext ?_, hsize', by simp [hlist], hrun⟩
  rw [hset, hgood'.elements_set, Tree.keys, hlist, List.map_append, List.map_cons]

/-- `Remove` takes the entries with an equivalent key out of the listing, when the shortcut of
`GetSuccessor` is never taken. -/
theorem remove_listing (hgood : tree.Good params.comp) (hplain : tree.NoShortcut params.eq)
    (hfits : Fits background tree) (hsize : background.size = tree.size) (key : Key) :
    ∃ count tree', tree'.Good params.comp ∧ Fits background tree' ∧
      tree'.inorder = tree.inorder.filter (fun entry ↦ !equivalent params.comp key entry.2) ∧
      tree'.size + count = tree.size ∧
      count = (if hgood.set.contains key then 1 else 0) ∧
      Transforms (remove params key) background tree count 0 count tree' := by
  by_cases hcontains : hgood.set.contains key = true
  · obtain ⟨entry, hmem, hhere⟩ := (hgood.contains_iff key).mp hcontains
    obtain ⟨color, left, right, frames, rfl⟩ := exists_focus hmem
    obtain ⟨height, hbalanced⟩ := hgood.balanced
    obtain ⟨tree', height', hbalanced', hlist, hrun⟩ := remove_present hbalanced hgood.sorted
      (hplain _ _ _ _ _ _ rfl) hhere
    have hinorder : (plug (.node entry.1 color left entry.2 right) frames).inorder =
        (before frames ++ left.inorder) ++ entry :: (right.inorder ++ after frames) := by
      simp [inorder_plug]
    have hcut : hgood.set.elements = (before frames ++ left.inorder).map Prod.snd ++
        entry.2 :: (right.inorder ++ after frames).map Prod.snd := by
      simp [Tree.keys, hinorder]
    have hlist' : tree'.inorder =
        (before frames ++ left.inorder) ++ (right.inorder ++ after frames) := by
      rw [hlist]
      simp
    have hfilter : tree'.inorder =
        (plug (.node entry.1 color left entry.2 right) frames).inorder.filter
          fun entry ↦ !equivalent params.comp key entry.2 := by
      obtain ⟨hsmaller, hgreater⟩ := OrderedSet.cut_of_equivalent hcut hhere
      have hkeep : tree'.inorder.filter (fun entry ↦ !equivalent params.comp key entry.2) =
          tree'.inorder := by
        refine List.filter_eq_self.mpr fun other hother ↦ ?_
        rw [OrderedSet.not_equivalent_of_cut hsmaller hgreater]
        · rfl
        · rw [← List.map_append, ← hlist']
          exact List.mem_map_of_mem hother
      rw [hlist', List.filter_append] at hkeep
      rw [hlist', hinorder, List.filter_append, List.filter_cons, hhere]
      exact hkeep.symm
    have hsub : tree'.inorder.Sublist
        (plug (.node entry.1 color left entry.2 right) frames).inorder :=
      hfilter ▸ List.filter_sublist
    have hgood' : tree'.Good params.comp :=
      ⟨⟨height', hbalanced'⟩, hgood.sorted.sublist (hsub.map Prod.snd)⟩
    have hsize' : tree'.size + 1 = (plug (.node entry.1 color left entry.2 right) frames).size := by
      rw [← Tree.length_inorder, ← Tree.length_inorder, hlist, hinorder]
      simp only [List.length_append, List.length_cons]
      omega
    refine ⟨1, tree', hgood', hfits.of_sublist hsub, hfilter, hsize', by rw [if_pos hcontains],
      fun nilNode hnil ↦ ?_⟩
    obtain ⟨parent, hrun'⟩ := hrun (background.withNil nilNode) (hfits.withNil nilNode) hnil
    refine ⟨parent, hrun'.trans ?_⟩
    have hcount : background.size - 1 = tree'.size := by omega
    rw [← hcount]
    rfl
  · have habsent := hgood.not_equivalent (Bool.eq_false_iff.mpr hcontains)
    refine ⟨0, tree, hgood, hfits, ?_, rfl, by rw [if_neg hcontains],
      .of_reads hsize fun nilNode _ ↦ remove_absent hgood.sorted (hfits.withNil nilNode) habsent⟩
    refine (List.filter_eq_self.mpr fun entry hentry ↦ ?_).symm
    rw [habsent entry hentry]
    rfl

/-- `Remove`, when the shortcut of `GetSuccessor` is never taken. -/
theorem remove_spec (hgood : tree.Good params.comp) (hplain : tree.NoShortcut params.eq)
    (hfits : Fits background tree) (hsize : background.size = tree.size) (key : Key) :
    ∃ count tree', ∃ hgood' : tree'.Good params.comp, Fits background tree' ∧
      hgood'.set = hgood.set.remove key ∧ tree'.size + count = tree.size ∧
      count = (if hgood.set.contains key then 1 else 0) ∧
      Transforms (remove params key) background tree count 0 count tree' := by
  obtain ⟨count, tree', hgood', hfits', hlist, hsize', hcount, hrun⟩ :=
    remove_listing hgood hplain hfits hsize key
  refine ⟨count, tree', hgood', hfits', OrderedSet.ext ?_, hsize', hcount, hrun⟩
  rw [OrderedSet.elements_remove, hgood.elements_set, hgood'.elements_set, Tree.keys, Tree.keys,
    hlist, List.filter_map]
  rfl

omit [IsStrictWeakOrder Key fun first second ↦ params.comp first second = true] in
/-- `Erase` at an entry, whatever `==` is. -/
theorem erase_spec_any (hgood : tree.Good params.comp) (hfits : Fits background tree)
    (hsize : background.size = tree.size) {smaller greater : List (ℕ × Key)} {entry : ℕ × Key}
    (hcut : tree.inorder = smaller ++ entry :: greater) (sentinel : Ptr) :
    ∃ next tree', tree'.Good params.comp ∧ Fits background tree' ∧
      tree'.inorder = smaller ++ greater ∧ tree'.size + 1 = tree.size ∧
      (∀ other, next = some other → other ∈ greater) ∧
      (tree.NoShortcut params.eq → next = greater.head?) ∧
      Transforms (erase params ⟨.node entry.1, sentinel⟩) background tree
        ⟨landing .nil next, .nil⟩ 0 1 tree' := by
  obtain ⟨color, left, right, frames, rfl, rfl, rfl⟩ := exists_focus_of_cut hcut
  obtain ⟨height, hbalanced⟩ := hgood.balanced
  obtain ⟨tree', height', hbalanced', hlist, hrun⟩ := erase_run hbalanced
  have hlist' : tree'.inorder =
      (before frames ++ left.inorder) ++ (right.inorder ++ after frames) := by
    simp [hlist]
  have hsub : tree'.inorder.Sublist
      (plug (.node entry.1 color left entry.2 right) frames).inorder := by
    rw [hlist', hcut]
    simp
  have hsize' : tree'.size + 1 = (plug (.node entry.1 color left entry.2 right) frames).size := by
    rw [← Tree.length_inorder, ← Tree.length_inorder, hlist', hcut]
    simp only [List.length_append, List.length_cons]
    omega
  refine ⟨(right.duplicate params.eq).or (right.inorder ++ after frames).head?, tree',
    ⟨⟨height', hbalanced'⟩, hgood.sorted.sublist (hsub.map Prod.snd)⟩, hfits.of_sublist hsub,
    hlist', hsize', fun other hnext ↦ ?_, fun hplain ↦ ?_, fun nilNode hnil ↦ ?_⟩
  · rcases Option.or_eq_some_iff.mp hnext with hduplicate | ⟨-, hhead⟩
    · exact List.mem_append_left _ (right.mem_of_duplicate hduplicate)
    · exact List.mem_of_mem_head? hhead
  · rw [hplain _ _ _ _ _ _ rfl, Option.none_or]
  · obtain ⟨parent, hrun'⟩ :=
      hrun (background.withNil nilNode) (hfits.withNil nilNode) hnil sentinel
    refine ⟨parent, hrun'.trans ?_⟩
    have hcount : background.size - 1 = tree'.size := by omega
    rw [← hcount]
    rfl

omit [IsStrictWeakOrder Key fun first second ↦ params.comp first second = true] in
/-- The loop of `Remove` leaves a good tree when it returns, whatever `==` is. -/
theorem removeLoop_returns {last : Iterator} {bound count value : ℕ} {entry : Option (ℕ × Key)}
    {s' : State Key} (hgood : tree.Good params.comp) (hfits : Fits background tree)
    (hsize : background.size = tree.size) (hnil : background.nilNode.color = .black)
    (hentry : ∀ other, entry = some other → other ∈ tree.inorder)
    (hrun : removeLoop params last bound ⟨landing .nil entry, .nil⟩ count (lay background tree) =
      .ok value s') :
    ∃ freed parent tree', tree'.Good params.comp ∧ Fits background tree' ∧
      tree'.size + freed = tree.size ∧
      s' = lay (background.after 0 freed tree'.size parent) tree' := by
  induction bound generalizing background tree entry count with
  | zero => cases hrun
  | succ bound ih =>
    rw [removeLoop] at hrun
    split_ifs at hrun with hlast
    · cases entry with
      | none =>
        have herase : erase params ⟨landing .nil (none : Option (ℕ × Key)), .nil⟩
            (lay background tree) = .ok endIterator (lay background tree) := erase_end _
        rw [bind_ok herase] at hrun
        have hnone : ∀ other, (none : Option (ℕ × Key)) = some other → other ∈ tree.inorder := by
          intro other hother
          cases hother
        exact ih hgood hfits hsize hnil hnone hrun
      | some first =>
        obtain ⟨smaller, greater, hcut⟩ := List.append_of_mem (hentry first rfl)
        obtain ⟨next, tree', hgood', hfits', hlist, hsize', hnext, -, htransforms⟩ :=
          erase_spec_any hgood hfits hsize hcut .nil
        obtain ⟨parent, herase⟩ := htransforms background.nilNode hnil
        replace hrun := (bind_ok herase).symm.trans hrun
        have hnext' : ∀ other, next = some other → other ∈ tree'.inorder := by
          intro other hother
          rw [hlist]
          exact List.mem_append_right _ (hnext other hother)
        obtain ⟨freed, parent', tree'', hgood'', hfits'', hcount, rfl⟩ :=
          ih hgood' (show Fits (background.after 0 1 tree'.size parent) tree' from
            ⟨hfits'.nodup, hfits'.free⟩) rfl hnil hnext' hrun
        refine ⟨1 + freed, parent', tree'', hgood'', ⟨hfits''.nodup, hfits''.free⟩, by omega, ?_⟩
        rw [State.after_after]
    · cases hrun
      refine ⟨0, background.nilNode.parent, tree, hgood, hfits, rfl, ?_⟩
      rw [← hsize]
      rfl

/-- `Remove` leaves a good tree when it returns, whatever `==` is. -/
theorem remove_returns {key : Key} {value : ℕ} {s' : State Key} (hgood : tree.Good params.comp)
    (hfits : Fits background tree) (hsize : background.size = tree.size)
    (hnil : background.nilNode.color = .black)
    (hrun : remove params key (lay background tree) = .ok value s') :
    ∃ freed parent tree', tree'.Good params.comp ∧ Fits background tree' ∧
      tree'.size + freed = tree.size ∧
      s' = lay (background.after 0 freed tree'.size parent) tree' := by
  rw [remove_range hgood.sorted hfits] at hrun
  exact removeLoop_returns hgood hfits hsize hnil (fun other ↦ List.mem_of_find?_eq_some) hrun

omit [IsStrictWeakOrder Key fun first second ↦ params.comp first second = true] in
/-- `Clear`. -/
theorem clear_spec (hfits : Fits background tree) :
    Transforms clear background tree () 0 tree.size .nil := by
  intro nilNode _
  exact ⟨nilNode.parent, clear_lay (hfits.withNil nilNode)⟩

omit [IsStrictWeakOrder Key fun first second ↦ params.comp first second = true] in
/-- What the copy constructor does after the new object was made empty. -/
theorem copy_spec (params : Params Key) {source : Tree Key}
    (h : Present background.heap .nil source)
    (hnodup : source.addresses.Nodup) (hfuse : background.fuse = none) :
    ∃ copy, source.SameShape copy ∧ Fits background copy ∧
      Transforms (do
          setRoot (← copyRecursive params (← fuel) source.ptr .nil)
          setSize source.size) background .nil () source.size 0 copy := by
  have hlive := h.size_le hnodup
  obtain ⟨copy, hshape, hnodup', hfree, hrun⟩ := copyRecursive_run params .nil
    (s := lay background .nil) (h.congr fun other _ ↦ rfl) hnodup
    (show source.size < (lay background .nil).heap.live.card + 2 by simp; omega)
  refine ⟨copy, hshape, ⟨hnodup', hfree⟩, fun nilNode _ ↦ ⟨nilNode.parent, ?_⟩⟩
  have hcopy := hrun nilNode none
  rw [Option.map_none, ← show (lay background .nil).fuse = none from hfuse] at hcopy
  refine (bind_ok (fuel_apply _)).trans ?_
  refine (bind_ok hcopy).trans ?_
  refine (bind_ok (setRoot_apply _ _)).trans ?_
  rw [setSize_apply, hshape.size_eq]
  exact congrArg (EStateM.Result.ok ()) (lay_ext (fun _ ↦ rfl) rfl rfl rfl rfl rfl rfl)

omit [IsStrictWeakOrder Key fun first second ↦ params.comp first second = true] in
/-- Dereferencing a node of a laid out tree. -/
theorem deref_lay (hfits : Fits background tree)
    {entry : ℕ × Key} (hmem : entry ∈ tree.inorder) (sentinel : Ptr) :
    (Iterator.mk (.node entry.1) sentinel).deref (lay background tree) =
      .ok entry.2 (lay background tree) := by
  obtain ⟨color, left, right, frames, rfl⟩ := exists_focus hmem
  unfold Iterator.deref
  exact bind_ok (read_focus hfits)

end Specifications

end StudStuff.RedBlackTree
