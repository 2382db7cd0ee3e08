import StudStuff.RedBlackTree.Contents
import StudStuff.RedBlackTree.Reachability

/-!
# The tree refines an ordered set

A sequence of `Insert`, `Remove` and `Clear` calls runs on a tree that starts empty, in any memory,
and the same sequence runs on an `OrderedSet` of equivalence classes. `Stands` relates the state of
the tree to the set, every call keeps it (`Stands.run`), and `Agrees` lists what it says about the
results of the next call: the listing, the size, and what `Insert`, `Remove` and `Find` return.
`runCommands_agrees` is the refinement.
-/

set_option autoImplicit false
set_option relaxedAutoImplicit false

namespace StudStuff.RedBlackTree

open Lib

variable {Key : Type}

/-! ### Sequences of calls -/

/-- A call that changes the contents. -/
inductive SetCommand (Key : Type)
  | insert (key : Key)
  | remove (key : Key)
  | clear

/-- The call on the tree; what it returns is dropped. -/
def SetCommand.run (params : Params Key) : SetCommand Key → TreeM Key Unit
  | .insert key => do let _ ← RedBlackTree.insert params key
  | .remove key => do let _ ← RedBlackTree.remove params key
  | .clear => RedBlackTree.clear

/-- The call on the reference set. -/
def SetCommand.apply {params : Params Key} [params.Lawful] :
    SetCommand Key → OrderedSet params.comp → OrderedSet params.comp
  | .insert key, set => set.insert key
  | .remove key, set => set.remove key
  | .clear, _ => .empty

/-- A sequence of calls on the tree. -/
def runCommands (params : Params Key) : List (SetCommand Key) → TreeM Key Unit
  | [] => pure ()
  | command :: rest => do
    command.run params
    runCommands params rest

/-- The same sequence on the reference set. -/
def applyCommands {params : Params Key} [params.Lawful] :
    List (SetCommand Key) → OrderedSet params.comp → OrderedSet params.comp
  | [], set => set
  | command :: rest, set => applyCommands rest (command.apply set)

/-- A tree object that holds nothing, in a memory that does not throw. -/
structure State.Fresh (s : State Key) : Prop where
  root : s.root = .nil
  size : s.size = 0
  nil : s.nilNode.color = .black
  fuse : s.fuse = none

/-! ### What the two have in common -/

/-- The keys that the root pointer of the object reaches, from left to right. -/
def Lists (s : State Key) (keys : List Key) : Prop :=
  ∃ tree, Represents s.heap .nil s.root tree ∧ tree.addresses.Nodup ∧ tree.keys = keys

/-- The tree shows what the set says: its listing, its size, and what the next call returns. -/
structure Agrees (params : Params Key) [params.Lawful] (s : State Key)
    (set : OrderedSet params.comp) : Prop where
  lists : Lists s set.elements
  size : RedBlackTree.size s = .ok set.elements.length s
  empty : RedBlackTree.empty s = .ok set.elements.isEmpty s
  insert_present : ∀ key, set.contains key = true → insert params key s = .ok endIterator s
  insert_absent : ∀ key, set.contains key = false → ∃ address s',
    insert params key s = .ok ⟨.node address, .nil⟩ s' ∧
      (Iterator.mk (.node address) .nil).deref s' = .ok key s' ∧
      Lists s' (set.insert key).elements
  remove : ∀ key, ∃ s', remove params key s = .ok (if set.contains key then 1 else 0) s' ∧
    Lists s' (set.remove key).elements
  find_absent : ∀ key, set.contains key = false → find params key s = .ok endIterator s
  find_present : ∀ key, set.contains key = true → ∃ pos representative,
    find params key s = .ok pos s ∧ pos ≠ endIterator ∧
      set.find? key = some representative ∧ pos.deref s = .ok representative s

/-- The state is the layout of a good tree whose keys are the set. -/
def Stands (params : Params Key) (s : State Key) (set : OrderedSet params.comp) : Prop :=
  ∃ background tree, ∃ hgood : tree.Good params.comp, s = lay background tree ∧
    Fits background tree ∧ hgood.set = set ∧ background.size = tree.size ∧
      background.fuse = none ∧ background.nilNode.color = .black

variable {params : Params Key} [params.Lawful] {s : State Key} {set : OrderedSet params.comp}

omit [params.Lawful] in
/-- An empty object stands for the empty set. -/
theorem State.Fresh.stands (h : s.Fresh) : Stands params s .empty := by
  refine ⟨s, .nil, Tree.good_nil _, ?_, ⟨by simp, by simp⟩, rfl, h.size, h.fuse, h.nil⟩
  exact lay_ext (fun other ↦ rfl) h.root rfl rfl rfl rfl rfl

omit [params.Lawful] in
/-- The state after a transformation is a layout again. -/
theorem Transforms.run {α : Type} {program : TreeM Key α} {background : State Key}
    {tree tree' : Tree Key} {value : α} {made freed : ℕ}
    (h : Transforms program background tree value made freed tree')
    (hnil : background.nilNode.color = .black) (hfuse : background.fuse = none)
    (hfits : Fits background tree') :
    ∃ background', program (lay background tree) = .ok value (lay background' tree') ∧
      Fits background' tree' ∧ background'.size = tree'.size ∧ background'.fuse = none ∧
      background'.nilNode.color = .black := by
  obtain ⟨parent, hrun⟩ := h background.nilNode hnil
  exact ⟨_, hrun, ⟨hfits.nodup, hfits.free⟩, rfl, hfuse, hnil⟩

omit [params.Lawful] in
/-- A transformed tree stands for the set of the new tree. -/
theorem Transforms.stands {α : Type} {program : TreeM Key α} {background : State Key}
    {tree tree' : Tree Key} {value : α} {made freed : ℕ}
    (h : Transforms program background tree value made freed tree')
    (hnil : background.nilNode.color = .black) (hfuse : background.fuse = none)
    (hfits : Fits background tree') (hgood' : tree'.Good params.comp) :
    ∃ s', program (lay background tree) = .ok value s' ∧ Stands params s' hgood'.set := by
  obtain ⟨background', hrun, hfits', hsize, hfuse', hnil'⟩ := h.run hnil hfuse hfits
  exact ⟨_, hrun, background', tree', hgood', rfl, hfits', rfl, hsize, hfuse', hnil'⟩

omit [params.Lawful] in
theorem Stands.lists (h : Stands params s set) : Lists s set.elements := by
  obtain ⟨background, tree, hgood, rfl, hfits, rfl, -, -, -⟩ := h
  exact ⟨tree, (present_lay background tree).represents hfits.nodup, hfits.nodup, rfl⟩

/-- Every call keeps the relation. -/
theorem Stands.run (h : Stands params s set) (command : SetCommand Key) :
    ∃ s', command.run params s = .ok () s' ∧ Stands params s' (command.apply set) := by
  obtain ⟨background, tree, hgood, rfl, hfits, rfl, hsize, hfuse, hnil⟩ := h
  cases command with
  | insert key =>
    by_cases hcontains : hgood.set.contains key = true
    · obtain ⟨hset, hrun⟩ := insert_spec_present hgood hfits hfuse hsize hcontains
      obtain ⟨s', hrun', hstands⟩ := hrun.stands hnil hfuse hfits hgood
      refine ⟨s', bind_ok hrun', ?_⟩
      rw [SetCommand.apply, hset]
      exact hstands
    · obtain ⟨address, tree', hgood', hfits', hset, -, -, hrun⟩ :=
        insert_spec_absent hgood hfits hfuse hsize (by simpa using hcontains)
      obtain ⟨s', hrun', hstands⟩ := hrun.stands hnil hfuse hfits' hgood'
      refine ⟨s', bind_ok hrun', ?_⟩
      rw [SetCommand.apply, ← hset]
      exact hstands
  | remove key =>
    obtain ⟨count, tree', hgood', hfits', hset, -, -, hrun⟩ :=
      remove_spec hgood hgood.sorted.noShortcut hfits hsize key
    obtain ⟨s', hrun', hstands⟩ := hrun.stands hnil hfuse hfits' hgood'
    refine ⟨s', bind_ok hrun', ?_⟩
    rw [SetCommand.apply, ← hset]
    exact hstands
  | clear =>
    obtain ⟨s', hrun', hstands⟩ := (clear_spec hfits).stands hnil hfuse ⟨by simp, by simp⟩
      (Tree.good_nil params.comp)
    exact ⟨s', hrun', hstands⟩

/-- A sequence of calls keeps the relation. -/
theorem Stands.runCommands (h : Stands params s set) (commands : List (SetCommand Key)) :
    ∃ s', RedBlackTree.runCommands params commands s = .ok () s' ∧
      Stands params s' (applyCommands commands set) := by
  induction commands generalizing s set with
  | nil => exact ⟨s, rfl, h⟩
  | cons command rest ih =>
    obtain ⟨s', hrun, hstands⟩ := h.run command
    obtain ⟨s'', hrest, hstands'⟩ := ih hstands
    exact ⟨s'', (bind_ok hrun).trans hrest, hstands'⟩

/-- What the relation says about the results of the next call. -/
theorem Stands.agrees (h : Stands params s set) : Agrees params s set := by
  have hlists := h.lists
  obtain ⟨background, tree, hgood, rfl, hfits, rfl, hsize, hfuse, hnil⟩ := h
  refine ⟨hlists, ?_, ?_, ?_, ?_, ?_, ?_, ?_⟩
  · unfold RedBlackTree.size
    refine (bind_ok (get_apply _)).trans ?_
    rw [pure_apply, size_lay, hsize, hgood.elements_set, Tree.length_keys]
  · unfold RedBlackTree.empty
    refine (bind_ok (get_apply _)).trans ?_
    rw [pure_apply, root_lay, hgood.elements_set]
    cases tree <;> simp [Tree.keys]
  · intro key hcontains
    obtain ⟨entry, hmem, hentry⟩ := (hgood.contains_iff key).mp hcontains
    exact insert_present hgood.sorted hfits hfuse hmem hentry
  · intro key hcontains
    obtain ⟨address, tree', hgood', hfits', hset, -, hmem, hrun⟩ :=
      insert_spec_absent hgood hfits hfuse hsize hcontains
    obtain ⟨background', hrun', hfits'', -, -, -⟩ := hrun.run hnil hfuse hfits'
    refine ⟨address, _, hrun', deref_lay hfits'' hmem _, ?_⟩
    rw [← hset]
    exact ⟨tree', (present_lay background' tree').represents hfits''.nodup, hfits''.nodup, rfl⟩
  · intro key
    obtain ⟨count, tree', hgood', hfits', hset, -, rfl, hrun⟩ :=
      remove_spec hgood hgood.sorted.noShortcut hfits hsize key
    obtain ⟨s', hrun', hstands⟩ := hrun.stands hnil hfuse hfits' hgood'
    exact ⟨s', hrun', hset ▸ hstands.lists⟩
  · intro key hcontains
    have hnone : (tree.inorder.find? fun entry ↦ equivalent params.comp key entry.2) = none := by
      rw [List.find?_eq_none]
      intro entry hmem hentry
      rw [(hgood.contains_iff key).mpr ⟨entry, hmem, hentry⟩] at hcontains
      cases hcontains
    unfold find
    refine (bind_ok (findNode_lay hgood.sorted hfits)).trans ?_
    rw [hnone]
    rfl
  · intro key hcontains
    obtain ⟨entry, hsome⟩ : ∃ entry,
        (tree.inorder.find? fun entry ↦ equivalent params.comp key entry.2) = some entry := by
      rw [← Option.isSome_iff_exists, List.find?_isSome]
      exact (hgood.contains_iff key).mp hcontains
    refine ⟨⟨.node entry.1, .node entry.1⟩, entry.2, ?_, by simp [endIterator], ?_,
      deref_lay hfits (List.mem_of_find?_eq_some hsome) _⟩
    · unfold find
      refine (bind_ok (findNode_lay hgood.sorted hfits)).trans ?_
      rw [hsome]
      rfl
    · rw [OrderedSet.find?, hgood.elements_set, Tree.keys, List.find?_map]
      exact congrArg (Option.map Prod.snd) hsome

/-- For every sequence of `Insert`, `Remove` and `Clear` calls on a tree that starts empty, the tree
agrees with the ordered set on which the same calls were made. -/
theorem runCommands_agrees (hfresh : s.Fresh) (commands : List (SetCommand Key)) :
    ∃ s', runCommands params commands s = .ok () s' ∧
      Agrees params s' (applyCommands commands .empty) := by
  have hstart : Stands params s .empty := hfresh.stands
  obtain ⟨s', hrun, hstands⟩ := hstart.runCommands commands
  exact ⟨s', hrun, hstands.agrees⟩

/-- The state of the first tree of natural numbers in a program. -/
def State.first : State ℕ where
  heap := .empty
  nilNode := ⟨0, .black, .nil, .nil, .nil⟩
  allocated := 0
  freed := 0
  fuse := none
  root := .nil
  size := 0

theorem runCommands_agrees_first : ∃ s',
    runCommands Params.naturals [.insert 2, .insert 1, .insert 2, .remove 1] State.first =
      .ok () s' ∧
    Agrees Params.naturals s'
      (applyCommands [.insert 2, .insert 1, .insert 2, .remove 1] .empty) :=
  runCommands_agrees ⟨rfl, rfl, rfl, rfl⟩ _

end StudStuff.RedBlackTree
