import StudStuff.RedBlackTree.Listings

/-!
# How long an iterator is valid

An iterator is at a node. While a program goes on with other operations the node may be rotated
and recoloured, moved to another object or swapped with its whole tree, and the trees around it
change. `Op.moves` says which object has it afterwards and `Op.Ends` which operations end it:
erasing it, removing its key, and clearing, destroying or assigning to the object that has it.

`positions_stable` proves that nothing else does. Until then the node belongs to that object with
the same key, and afterwards it is gone. Both follow from what the operations mean for the listings
(`Op.Means.kept`, `Op.Means.ended`).
-/

set_option autoImplicit false
set_option relaxedAutoImplicit false

namespace StudStuff.RedBlackTree

open Lib

variable {Key : Type} {params : Params Key}

/-- The object that has a node after an operation, if the operation does not end it. -/
def Op.moves (owner : ℕ) : Op Key → ℕ
  | .moveConstruct name source | .moveAssign name source => if owner = source then name else owner
  | .swap first second => Equiv.swap first second owner
  | _ => owner

/-- The operations that free a node of an object. -/
def Op.Ends (params : Params Key) (owner address : ℕ) (key : Key) : Op Key → Prop
  | .destroy name | .clear name | .copyAssign name _ => name = owner
  | .moveAssign name source => name = owner ∧ name ≠ source
  | .remove name other => name = owner ∧ equivalent params.comp other key = true
  | .erase name pos => name = owner ∧ pos.node = .node address
  | _ => False

section Step

variable [IsStrictWeakOrder Key fun first second ↦ params.comp first second = true]
  {before after : Listings params} {op : Op Key} {output : Output Key} {owner address : ℕ}
  {key : Key}

/-- An operation that does not end a position keeps it and its key. -/
theorem Op.Means.kept (h : op.Means before output after)
    (hlies : Lies before.listing owner (address, key))
    (hends : ¬op.Ends params owner address key) :
    Lies after.listing (op.moves owner) (address, key) := by
  cases op with
  | construct name =>
    obtain ⟨-, hnone, hafter⟩ := h
    rw [hafter]
    exact (lies_update_of_ne (hlies.ne_of_none hnone)).mpr hlies
  | copyConstruct name source =>
    obtain ⟨-, hnone, original, horiginal, copy, hcopy, hafter⟩ := h
    rw [hafter]
    exact (lies_update_of_ne (hlies.ne_of_none hnone)).mpr hlies
  | moveConstruct name source =>
    obtain ⟨-, hnone, original, horiginal, hafter⟩ := h
    rw [hafter]
    exact hlies.moved horiginal fun _ ↦ hlies.ne_of_none hnone
  | destroy name =>
    obtain ⟨-, -, hafter⟩ := h
    rw [hafter]
    exact (lies_update_of_ne fun heq ↦ hends heq.symm).mpr hlies
  | copyAssign name source =>
    obtain ⟨-, -, original, horiginal, copy, hcopy, hafter⟩ := h
    rw [hafter]
    exact (lies_update_of_ne fun heq ↦ hends heq.symm).mpr hlies
  | moveAssign name source =>
    obtain ⟨-, -, original, horiginal, hafter⟩ := h
    rw [hafter]
    refine hlies.moved horiginal fun hsource heq ↦ hends ⟨heq.symm, fun heq' ↦ ?_⟩
    exact hsource (heq.trans heq')
  | swap first second =>
    obtain ⟨-, original, horiginal, original', horiginal', hafter⟩ := h
    rw [hafter, Op.moves]
    by_cases hfirst : owner = first
    · subst hfirst
      rw [Equiv.swap_apply_left]
      exact lies_update_self.mpr (hlies.mem horiginal)
    by_cases hsecond : owner = second
    · subst hsecond
      rw [Equiv.swap_apply_right]
      exact (lies_update_of_ne (Ne.symm hfirst)).mpr (lies_update_self.mpr (hlies.mem horiginal'))
    · rw [Equiv.swap_apply_of_ne_of_ne hfirst hsecond]
      exact (lies_update_of_ne hsecond).mpr ((lies_update_of_ne hfirst).mpr hlies)
  | insert name other =>
    obtain ⟨original, horiginal, ⟨-, -, rfl⟩ | ⟨hfind, fresh, hfresh, -, -, hafter⟩⟩ := h
    · exact hlies
    rw [hafter]
    exact hlies.update horiginal fun _ hmem ↦
      (Listing.mem_insert hfind hfresh).mpr (Or.inr hmem)
  | remove name other =>
    obtain ⟨original, horiginal, -, hafter⟩ := h
    rw [hafter]
    refine hlies.update horiginal fun hname hmem ↦ Listing.mem_remove.mpr ⟨hmem, ?_⟩
    exact Bool.eq_false_iff.mpr fun hother ↦ hends ⟨hname.symm, hother⟩
  | erase name pos =>
    obtain ⟨original, horiginal, ⟨-, -, rfl⟩ | ⟨other, key', hpos, -, -, hafter⟩⟩ := h
    · exact hlies
    rw [hafter]
    refine hlies.update horiginal fun hname hmem ↦ Listing.mem_erase.mpr ⟨hmem, ?_⟩
    rintro rfl
    exact hends ⟨hname.symm, hpos⟩
  | clear name =>
    obtain ⟨-, -, hafter⟩ := h
    rw [hafter]
    exact (lies_update_of_ne fun heq ↦ hends heq.symm).mpr hlies
  | find name other | lowerBound name other | upperBound name other | begin name | next name other
  | deref name other | empty name | size name =>
    obtain ⟨rfl, -⟩ := h
    exact hlies

/-- An operation that ends a position of an object takes it out of the listing of that object. -/
theorem Op.Means.gone (h : op.Means before output after)
    (hlies : Lies before.listing owner (address, key)) (hends : op.Ends params owner address key)
    {other : Key} : ¬Lies after.listing owner (address, other) := by
  intro hafter
  cases op with
  | destroy target =>
    obtain ⟨-, -, hchange⟩ := h
    obtain rfl : target = owner := hends
    rw [hchange] at hafter
    exact not_lies_update_none hafter
  | clear target =>
    obtain ⟨-, -, hchange⟩ := h
    obtain rfl : target = owner := hends
    rw [hchange, lies_update_self] at hafter
    cases hafter
  | copyAssign target source =>
    obtain ⟨-, -, original, horiginal, copy, hcopy, hchange⟩ := h
    obtain rfl : target = owner := hends
    rw [hchange, lies_update_self] at hafter
    exact hcopy.2 _ hafter target key hlies
  | moveAssign target source =>
    obtain ⟨-, -, original, horiginal, hchange⟩ := h
    obtain ⟨rfl, hne⟩ := hends
    rw [hchange, lies_update_self] at hafter
    exact hne (before.apart _ _ _ _ _ hlies ⟨original, horiginal, hafter⟩)
  | remove target removed =>
    obtain ⟨original, horiginal, -, hchange⟩ := h
    obtain ⟨rfl, hequivalent⟩ := hends
    rw [hchange, lies_update_self] at hafter
    obtain ⟨hold, hother⟩ := Listing.mem_remove.mp hafter
    cases List.inj_on_of_nodup_map original.nodup hold (hlies.mem horiginal) rfl
    cases hequivalent.symm.trans hother
  | erase target pos =>
    obtain ⟨original, horiginal, ⟨rfl, -, -⟩ | ⟨gone, key', hpos, -, -, hchange⟩⟩ := h
    · obtain ⟨-, hnode⟩ := hends
      cases hnode
    obtain ⟨rfl, hnode⟩ := hends
    obtain rfl := Ptr.node.inj (hpos.symm.trans hnode)
    rw [hchange, lies_update_self] at hafter
    exact (Listing.mem_erase.mp hafter).2 rfl
  | construct target | copyConstruct target source | moveConstruct target source
  | swap first second | insert target inserted | find target sought | lowerBound target sought
  | upperBound target sought | begin target | next target pos | deref target pos
  | empty target | size target => exact hends

/-- An operation that ends a position of an object puts nothing new into the other listings. -/
theorem Op.Means.old_of_ends (h : op.Means before output after)
    (hends : op.Ends params owner address key) {name : ℕ} (hname : name ≠ owner) {entry : ℕ × Key}
    (hafter : Lies after.listing name entry) : Lies before.listing name entry := by
  cases op with
  | destroy target =>
    obtain ⟨-, -, hchange⟩ := h
    rw [hchange] at hafter
    exact (lies_update_of_ne fun heq ↦ hname (heq.trans hends)).mp hafter
  | clear target =>
    obtain ⟨-, -, hchange⟩ := h
    rw [hchange] at hafter
    exact (lies_update_of_ne fun heq ↦ hname (heq.trans hends)).mp hafter
  | copyAssign target source =>
    obtain ⟨-, -, original, horiginal, copy, hcopy, hchange⟩ := h
    rw [hchange] at hafter
    exact (lies_update_of_ne fun heq ↦ hname (heq.trans hends)).mp hafter
  | moveAssign target source =>
    obtain ⟨-, -, original, horiginal, hchange⟩ := h
    rw [hchange, lies_update_of_ne fun heq ↦ hname (heq.trans hends.1)] at hafter
    by_cases hsource : name = source
    · subst hsource
      cases lies_update_self.mp hafter
    · exact (lies_update_of_ne hsource).mp hafter
  | remove target removed =>
    obtain ⟨original, horiginal, -, hchange⟩ := h
    rw [hchange] at hafter
    exact (lies_update_of_ne fun heq ↦ hname (heq.trans hends.1)).mp hafter
  | erase target pos =>
    obtain ⟨original, horiginal, ⟨-, -, rfl⟩ | ⟨gone, key', hpos, -, -, hchange⟩⟩ := h
    · exact hafter
    rw [hchange] at hafter
    exact (lies_update_of_ne fun heq ↦ hname (heq.trans hends.1)).mp hafter
  | construct target | copyConstruct target source | moveConstruct target source
  | swap first second | insert target inserted | find target sought | lowerBound target sought
  | upperBound target sought | begin target | next target pos | deref target pos
  | empty target | size target => exact hends.elim

/-- An operation that ends a position leaves it in no listing. -/
theorem Op.Means.ended (h : op.Means before output after)
    (hlies : Lies before.listing owner (address, key)) (hends : op.Ends params owner address key) :
    after.Fresh address := by
  intro name other hafter
  by_cases hname : name = owner
  · exact h.gone hlies hends (hname ▸ hafter)
  · exact hname (before.apart _ _ _ _ _ (h.old_of_ends hends hname hafter) hlies)

end Step

/-! ### Runs -/

/-- A run of operations from a world on. -/
inductive Follows {params : Params Key} (policy : SentinelPolicy params) :
    World Key policy.Store → List (Op Key) → World Key policy.Store → Prop
  | nil (world : World Key policy.Store) : Follows policy world [] world
  | cons {world world' world'' : World Key policy.Store} {op : Op Key} {ops : List (Op Key)}
      {output : Output Key} (hvalid : op.Valid world.core)
      (hexec : exec policy op world = .ok output world')
      (hrest : Follows policy world' ops world'') : Follows policy world (op :: ops) world''

/-- No operation of a run ends a node. -/
def Survives (params : Params Key) (address : ℕ) (key : Key) : ℕ → List (Op Key) → Prop
  | _, [] => True
  | owner, op :: ops =>
    ¬op.Ends params owner address key ∧ Survives params address key (op.moves owner) ops

/-- The object that has a node after a run. -/
def ownerAfter (owner : ℕ) (ops : List (Op Key)) : ℕ :=
  ops.foldl (fun owner op ↦ op.moves owner) owner

/-- A node with a key belongs to the tree of an object. -/
def Core.Keeps (core : Core Key) (name address : ℕ) (key : Key) : Prop :=
  core.Owns name address ∧ ∃ node, core.heap.cell address = some node ∧ node.data = key

/-- The cell at an entry of a represented tree. -/
theorem Represents.cell_of_mem {heap : Heap ℕ (RBNode Key)} {parent root : Ptr} {tree : Tree Key}
    (h : Represents heap parent root tree) {entry : ℕ × Key} (hmem : entry ∈ tree.inorder) :
    ∃ node, heap.cell entry.1 = some node ∧ node.data = entry.2 := by
  induction h with
  | nil => cases hmem
  | node hcell hleft hright ihl ihr =>
    rw [Tree.inorder_node, List.mem_append, List.mem_cons] at hmem
    rcases hmem with hmem | rfl | hmem
    · exact ihl hmem
    · exact ⟨_, hcell, rfl⟩
    · exact ihr hmem

section Positions

variable {core : Core Key} {shapes : ObjectName → Tree Key} {owner address : ℕ} {key : Key}

/-- A node belongs to an object with the key that its entry in the listing has. -/
theorem Core.Invariant.keeps_iff (h : core.Invariant params shapes) :
    core.Keeps owner address key ↔ Lies h.contents.listing owner (address, key) := by
  have hcell {entry : ℕ × Key} (hmem : entry ∈ (shapes (.named owner)).inorder) :
      ∃ node, core.heap.cell entry.1 = some node ∧ node.data = entry.2 :=
    ((h.present _).represents (h.nodup _)).cell_of_mem hmem
  refine Iff.trans ?_ h.lies_iff.symm
  rw [Core.Keeps, h.owns_iff]
  constructor
  · rintro ⟨hmem, node, hnode, rfl⟩
    obtain ⟨entry, hentry, rfl⟩ := List.mem_map.mp hmem
    obtain ⟨node', hnode', hdata⟩ := hcell hentry
    cases hnode.symm.trans hnode'
    rwa [hdata]
  · intro hmem
    exact ⟨List.mem_map.mpr ⟨_, hmem, rfl⟩, hcell hmem⟩

/-- A node has one owner and one key. -/
theorem Core.Invariant.keeps_unique (h : core.Invariant params shapes)
    (hkeeps : core.Keeps owner address key) {name : ℕ} {other : Key}
    (hother : core.Keeps name address other) : name = owner ∧ other = key := by
  have hlies := h.keeps_iff.mp hkeeps
  have hlies' := h.keeps_iff.mp hother
  obtain rfl := h.contents.apart _ _ _ _ _ hlies' hlies
  obtain ⟨-, node, hnode, rfl⟩ := hkeeps
  obtain ⟨-, node', hnode', rfl⟩ := hother
  cases hnode.symm.trans hnode'
  exact ⟨rfl, rfl⟩

/-- A live node lies in a listing. -/
theorem Core.Invariant.not_live_iff (h : core.Invariant params shapes)
    (htemporary : core.objects .temporary = none) :
    address ∉ core.heap.live ↔ h.contents.Fresh address := by
  constructor
  · intro hlive name other hlies
    obtain ⟨-, node, hnode, -⟩ := h.keeps_iff.mpr hlies
    rw [(core.heap.cell_eq_none_iff address).mpr hlive] at hnode
    cases hnode
  · intro hfresh hlive
    obtain ⟨name, other, hlies⟩ := (h.shows htemporary).live address hlive
    exact hfresh name other hlies

variable [params.Lawful]

/-- A run that does not end a node keeps it. -/
theorem Follows.kept {policy : SentinelPolicy params} {world world' : World Key policy.Store}
    {ops : List (Op Key)} (hfollows : Follows policy world ops world')
    (h : world.core.Invariant params shapes) (htemporary : world.core.objects .temporary = none)
    (hsentinels : ∀ name, (policy.load world.sentinels name).IsSentinel params)
    (hkeeps : world.core.Keeps owner address key)
    (hsurvives : Survives params address key owner ops) :
    ∃ shapes', world'.core.Invariant params shapes' ∧ world'.core.objects .temporary = none ∧
      (∀ name, (policy.load world'.sentinels name).IsSentinel params) ∧
        world'.core.Keeps (ownerAfter owner ops) address key := by
  induction hfollows generalizing shapes owner with
  | nil => exact ⟨shapes, h, htemporary, hsentinels, hkeeps⟩
  | @cons world world₁ world' op ops output hvalid hexec hrest ih =>
    obtain ⟨hends, hsurvives⟩ := hsurvives
    obtain ⟨shapes₁, h₁, htemporary₁, hsentinels₁, hmeans⟩ :=
      h.means_of_exec htemporary hsentinels hvalid hexec
    exact ih h₁ htemporary₁ hsentinels₁
      (h₁.keeps_iff.mpr (hmeans.kept (h.keeps_iff.mp hkeeps) hends)) hsurvives

/-- An iterator is valid exactly until an operation ends its node. In a run from any reachable world
whose operations do not end the node, it belongs to the object that the moves and swaps of the run
took it to, and to no other, and has the same key, which dereferencing returns. The next operation
frees it exactly if it ends it. -/
theorem positions_stable {world world' : World Key (SentinelPolicy.shared params).Store}
    (hreach : Reachable params world) (hkeeps : world.core.Keeps owner address key)
    {ops : List (Op Key)} (hfollows : Follows (.shared params) world ops world')
    (hsurvives : Survives params address key owner ops) :
    (∀ name other, world'.core.Keeps name address other ↔
      name = ownerAfter owner ops ∧ other = key) ∧
    (∀ sentinel, ∃ world'', exec (.shared params)
      (.deref (ownerAfter owner ops) ⟨.node address, sentinel⟩) world' = .ok (.key key) world'') ∧
    ∀ op output world'', op.Valid world'.core →
      exec (.shared params) op world' = .ok output world'' →
        (op.Ends params (ownerAfter owner ops) address key ↔
          address ∉ world''.core.heap.live) := by
  obtain ⟨trace, hrun⟩ := hreach
  obtain ⟨⟨shapes, h⟩, htemporary, hsentinels⟩ :=
    hrun.invariant fun _ ↦ isSentinel_sentinel params
  obtain ⟨shapes', h', htemporary', hsentinels', hkept⟩ :=
    hfollows.kept h htemporary hsentinels hkeeps hsurvives
  refine ⟨fun name other ↦ ⟨h'.keeps_unique hkept, ?_⟩, fun sentinel ↦ ?_,
    fun op output world'' hvalid hexec ↦ ?_⟩
  · rintro ⟨rfl, rfl⟩
    exact hkept
  · obtain ⟨object, hobject, hreaches⟩ := hkept.1
    have hvalid : (Op.deref (ownerAfter owner ops) ⟨.node address, sentinel⟩ : Op Key).Valid
        world'.core := ⟨object, address, hobject, rfl, hreaches⟩
    obtain ⟨output, core', shapes'', h'', -, hcomputes, hmeans⟩ :=
      h'.exec_refines htemporary' hvalid
    obtain ⟨store', -, hexec⟩ := hcomputes (.shared params) world'.sentinels hsentinels'
    obtain ⟨-, listing, hlisting, address', key', hnode, hmem, rfl⟩ := hmeans
    cases hnode
    obtain ⟨-, rfl⟩ := h'.keeps_unique hkept (h'.keeps_iff.mpr ⟨listing, hlisting, hmem⟩)
    exact ⟨_, hexec⟩
  · obtain ⟨shapes'', h'', htemporary'', -, hmeans⟩ :=
      h'.means_of_exec htemporary' hsentinels' hvalid hexec
    rw [h''.not_live_iff htemporary'']
    refine ⟨hmeans.ended (h'.keeps_iff.mp hkept), fun hfresh ↦ ?_⟩
    by_contra hends
    exact hfresh _ _ (hmeans.kept (h'.keeps_iff.mp hkept) hends)

/-- An iterator to the only key of a tree, after the tree was swapped with an empty one. -/
theorem positions_stable_swapped :
    ∃ (address : ℕ) (world world' : World ℕ (SentinelPolicy.shared Params.naturals).Store),
      Follows (.shared Params.naturals) world [.swap 0 1] world' ∧
        ∀ name other, world'.core.Keeps name address other ↔ name = 1 ∧ other = 5 := by
  have hstart : Run (.shared Params.naturals) (.sentinel Params.naturals) []
    ⟨Core.start ℕ, .sentinel Params.naturals⟩ := .start
  have hfirst := hstart.step (.construct 0) (by rintro ⟨object, hobject⟩; cases hobject) rfl
  have hsecond := hfirst.step (.construct 1) (by rintro ⟨object, hobject⟩; cases hobject) rfl
  obtain ⟨world, address, hreach, hvalid, hkeeps⟩ :
      ∃ (world : World ℕ (SentinelPolicy.shared Params.naturals).Store) (address : ℕ),
        Reachable Params.naturals world ∧ (Op.swap 0 1 : Op ℕ).Valid world.core ∧
          world.core.Keeps 0 address 5 :=
    ⟨_, _, ⟨_, hsecond.step (.insert 0 5) ⟨_, rfl⟩ rfl⟩, ⟨⟨_, rfl⟩, ⟨_, rfl⟩⟩,
      ⟨_, rfl, .here rfl⟩, _, rfl, rfl⟩
  obtain ⟨trace, hrun⟩ := hreach
  obtain ⟨⟨shapes, h⟩, htemporary, hsentinels⟩ :=
    hrun.invariant fun _ ↦ isSentinel_sentinel Params.naturals
  obtain ⟨output, core', -, -, -, hcomputes, -⟩ := h.exec_refines htemporary hvalid
  obtain ⟨store', -, hexec⟩ := hcomputes (.shared Params.naturals) world.sentinels hsentinels
  have hfollows := Follows.cons hvalid hexec (.nil _)
  exact ⟨address, world, _, hfollows,
    (positions_stable ⟨trace, hrun⟩ hkeeps hfollows ⟨id, trivial⟩).1⟩

end Positions

end StudStuff.RedBlackTree
