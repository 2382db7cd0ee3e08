import Mathlib.Data.Finset.Basic
import Mathlib.Data.Finset.Card
import Mathlib.Data.Finset.Lattice.Fold
import Mathlib.Data.Finset.SDiff
import Mathlib.Order.Lattice.Nat

/-!
# Heaps of cells and allocators

A `Heap` is a finite partial map from addresses to cells of one type, with its live addresses
kept as a finite set: a cell is readable exactly at a live address (`mem_live`), so the live set
is determined by the cells and two heaps with the same cells are equal (`ext_cell`). The three
ways to change a heap are `modify`, which rewrites the cell at one address and never changes
liveness, `store`, which makes an address live, and `release`, which makes it dead. `releaseAll`
frees a list of addresses, `restrict` frees all but a set of them, and `overlay` writes a finite
family of cells over a heap.

An `Allocator` proposes an address for every allocation. It may depend on the number of
allocations made so far and on the live addresses, and it may reuse addresses that have been
released; all it promises is that the address is not live.
-/

set_option autoImplicit false
set_option relaxedAutoImplicit false

namespace StudStuff.Lib

/-- A heap of cells of one type: a partial map whose live addresses are a finite set. -/
structure Heap (Address α : Type*) where
  /-- The cell at an address, if the address is live. -/
  cell : Address → Option α
  /-- The live addresses. -/
  live : Finset Address
  /-- An address is live exactly when it holds a cell. -/
  mem_live : ∀ address, address ∈ live ↔ (cell address).isSome

/-- An allocation policy: an address for the `count`-th allocation when `live` is in use. The
address is never one in use; addresses that were released may come back. -/
structure Allocator where
  /-- The address handed out. -/
  pick : ℕ → Finset ℕ → ℕ
  /-- It is not in use. -/
  fresh : ∀ count live, pick count live ∉ live

namespace Heap

variable {Address α : Type*}

/-- The cells determine the heap. -/
theorem ext_cell {first second : Heap Address α}
    (h : ∀ address, first.cell address = second.cell address) :
    first = second := by
  obtain ⟨cell, live, hlive⟩ := first
  obtain ⟨cell', live', hlive'⟩ := second
  obtain rfl : cell = cell' := funext h
  obtain rfl : live = live' := by
    ext address
    rw [hlive, hlive']
  rfl

/-- A dead address holds no cell. -/
theorem cell_eq_none_iff (heap : Heap Address α) (address : Address) :
    heap.cell address = none ↔ address ∉ heap.live := by
  rw [heap.mem_live, Option.not_isSome_iff_eq_none]

/-- The heap without any cell. -/
def empty : Heap Address α where
  cell _ := none
  live := ∅
  mem_live := by simp

@[simp] theorem cell_empty (address : Address) : (empty : Heap Address α).cell address = none := rfl

@[simp] theorem live_empty : (empty : Heap Address α).live = ∅ := rfl

variable [DecidableEq Address]

/-- The heap with the cell at one address rewritten; nothing happens at a dead address. -/
def modify (heap : Heap Address α) (address : Address) (change : α → α) : Heap Address α where
  cell other := if other = address then (heap.cell other).map change else heap.cell other
  live := heap.live
  mem_live other := by
    rw [heap.mem_live]
    split_ifs <;> simp

@[simp] theorem cell_modify (heap : Heap Address α) (address other : Address) (change : α → α) :
    (heap.modify address change).cell other =
      if other = address then (heap.cell other).map change else heap.cell other :=
  rfl

@[simp] theorem live_modify (heap : Heap Address α) (address : Address) (change : α → α) :
    (heap.modify address change).live = heap.live :=
  rfl

/-- The heap in which an address holds a given cell. -/
def store (heap : Heap Address α) (address : Address) (value : α) : Heap Address α where
  cell other := if other = address then some value else heap.cell other
  live := insert address heap.live
  mem_live other := by
    rw [Finset.mem_insert, heap.mem_live]
    split_ifs with h <;> simp [h]

@[simp] theorem cell_store (heap : Heap Address α) (address other : Address) (value : α) :
    (heap.store address value).cell other =
      if other = address then some value else heap.cell other :=
  rfl

@[simp] theorem live_store (heap : Heap Address α) (address : Address) (value : α) :
    (heap.store address value).live = insert address heap.live :=
  rfl

theorem store_store (heap : Heap Address α) (address : Address) (value value' : α) :
    (heap.store address value).store address value' = heap.store address value' := by
  apply ext_cell
  intro other
  rw [cell_store, cell_store, cell_store]
  split_ifs <;> rfl

/-- The heap in which an address is dead. -/
def release (heap : Heap Address α) (address : Address) : Heap Address α where
  cell other := if other = address then none else heap.cell other
  live := heap.live.erase address
  mem_live other := by
    rw [Finset.mem_erase, heap.mem_live]
    split_ifs with h <;> simp [h]

@[simp] theorem cell_release (heap : Heap Address α) (address other : Address) :
    (heap.release address).cell other = if other = address then none else heap.cell other :=
  rfl

@[simp] theorem live_release (heap : Heap Address α) (address : Address) :
    (heap.release address).live = heap.live.erase address :=
  rfl

/-- The heap in which every address of a list is dead. -/
def releaseAll (heap : Heap Address α) (addresses : List Address) : Heap Address α where
  cell other := if other ∈ addresses then none else heap.cell other
  live := heap.live \ addresses.toFinset
  mem_live other := by
    rw [Finset.mem_sdiff, List.mem_toFinset, heap.mem_live]
    split_ifs with h <;> simp [h]

@[simp] theorem cell_releaseAll (heap : Heap Address α) (addresses : List Address)
    (other : Address) :
    (heap.releaseAll addresses).cell other =
      if other ∈ addresses then none else heap.cell other :=
  rfl

@[simp] theorem live_releaseAll (heap : Heap Address α) (addresses : List Address) :
    (heap.releaseAll addresses).live = heap.live \ addresses.toFinset :=
  rfl

/-- The heap in which only the given addresses stay live. -/
def restrict (heap : Heap Address α) (addresses : Finset Address) : Heap Address α where
  cell other := if other ∈ addresses then heap.cell other else none
  live := heap.live ∩ addresses
  mem_live other := by
    rw [Finset.mem_inter, heap.mem_live]
    split_ifs with h <;> simp [h]

@[simp] theorem cell_restrict (heap : Heap Address α) (addresses : Finset Address)
    (other : Address) :
    (heap.restrict addresses).cell other = if other ∈ addresses then heap.cell other else none :=
  rfl

@[simp] theorem live_restrict (heap : Heap Address α) (addresses : Finset Address) :
    (heap.restrict addresses).live = heap.live ∩ addresses :=
  rfl

/-- The heap with a family of cells, supported on a finite set of addresses, written over it. -/
def overlay (heap : Heap Address α) (cells : Address → Option α) (support : List Address)
    (hsupport : ∀ address, address ∈ support ↔ (cells address).isSome) : Heap Address α where
  cell address := (cells address).or (heap.cell address)
  live := heap.live ∪ support.toFinset
  mem_live address := by
    rw [Finset.mem_union, List.mem_toFinset, heap.mem_live, hsupport, Option.isSome_or,
      Bool.or_eq_true, or_comm]

@[simp] theorem cell_overlay (heap : Heap Address α) (cells : Address → Option α)
    (support : List Address)
    (hsupport : ∀ address, address ∈ support ↔ (cells address).isSome) (address : Address) :
    (heap.overlay cells support hsupport).cell address = (cells address).or (heap.cell address) :=
  rfl

@[simp] theorem live_overlay (heap : Heap Address α) (cells : Address → Option α)
    (support : List Address)
    (hsupport : ∀ address, address ∈ support ↔ (cells address).isSome) :
    (heap.overlay cells support hsupport).live = heap.live ∪ support.toFinset :=
  rfl

/-- Cells that were written over dead addresses can be released again. -/
theorem releaseAll_overlay {heap : Heap Address α} {cells : Address → Option α}
    {support : List Address} (hsupport : ∀ address, address ∈ support ↔ (cells address).isSome)
    (hdead : ∀ address, (cells address).isSome → heap.cell address = none) :
    (heap.overlay cells support hsupport).releaseAll support = heap := by
  apply ext_cell
  intro address
  rw [cell_releaseAll, cell_overlay]
  by_cases hmem : address ∈ support
  · rw [if_pos hmem, hdead address ((hsupport address).mp hmem)]
  · have hcells : cells address = none := by
      rwa [hsupport, Option.not_isSome_iff_eq_none] at hmem
    rw [if_neg hmem, hcells, Option.none_or]

/-! ### Counting cells -/

section Count

/-- The number of cells with a property. -/
def count (heap : Heap Address α) (property : α → Bool) : ℕ :=
  {address ∈ heap.live | (heap.cell address).any property}.card

variable {heap : Heap Address α} {property : α → Bool}

omit [DecidableEq Address] in
/-- No cell is counted exactly when every cell lacks the property. -/
theorem count_eq_zero_iff : heap.count property = 0 ↔
    ∀ address value, heap.cell address = some value → property value = false := by
  rw [count, Finset.card_eq_zero, Finset.filter_eq_empty_iff]
  constructor
  · intro h address value hvalue
    have hlive : address ∈ heap.live := by
      rw [heap.mem_live, hvalue]
      rfl
    have hnot := h hlive
    rw [hvalue] at hnot
    simpa using hnot
  · intro h address hlive hany
    rw [heap.mem_live] at hlive
    obtain ⟨value, hvalue⟩ := Option.isSome_iff_exists.mp hlive
    rw [hvalue, Option.any_some, h address value hvalue] at hany
    cases hany

omit [DecidableEq Address] in
/-- A cell with the property makes the count positive. -/
theorem count_ne_zero {address : Address} {value : α} (hcell : heap.cell address = some value)
    (hvalue : property value = true) : heap.count property ≠ 0 := by
  intro hzero
  rw [count_eq_zero_iff.mp hzero address value hcell] at hvalue
  cases hvalue

omit [DecidableEq Address] in
/-- A positive count has a cell with the property. -/
theorem exists_of_count_ne_zero (h : heap.count property ≠ 0) :
    ∃ address value, heap.cell address = some value ∧ property value = true := by
  by_contra hnone
  refine h (count_eq_zero_iff.mpr fun address value hcell ↦ ?_)
  by_contra hvalue
  exact hnone ⟨address, value, hcell, by simpa using hvalue⟩

/-- Releasing a cell takes it out of the count. -/
theorem count_release (property : α → Bool) {address : Address} {value : α}
    (hcell : heap.cell address = some value) :
    (heap.release address).count property + (if property value then 1 else 0) =
      heap.count property := by
  have hlive : address ∈ heap.live := by
    rw [heap.mem_live, hcell]
    rfl
  have hfilter : {other ∈ (heap.release address).live |
      ((heap.release address).cell other).any property} =
        {other ∈ heap.live | (heap.cell other).any property}.erase address := by
    ext other
    rw [Finset.mem_filter, Finset.mem_erase, Finset.mem_filter, live_release, cell_release,
      Finset.mem_erase]
    by_cases hother : other = address
    · simp [hother]
    · rw [if_neg hother, and_assoc]
  rw [count, hfilter]
  by_cases hvalue : property value = true
  · rw [if_pos hvalue, Finset.card_erase_add_one]
    · rfl
    · simp [hlive, hcell, hvalue]
  · rw [if_neg hvalue, Finset.erase_eq_of_notMem]
    · rfl
    · simp [hcell, hvalue]

/-- Storing a cell at a dead address adds it to the count. -/
theorem count_store_of_none (property : α → Bool) {address : Address}
    (hcell : heap.cell address = none) (value : α) :
    (heap.store address value).count property =
      heap.count property + if property value then 1 else 0 := by
  have hback : (heap.store address value).release address = heap := ext_cell fun other ↦ by
    by_cases hother : other = address
    · simp [hother, hcell]
    · simp [hother]
  have hstored : (heap.store address value).cell address = some value := by simp
  rw [← count_release property hstored, hback]

/-- Storing over a live cell exchanges the two in the count. -/
theorem count_store_of_some (property : α → Bool) {address : Address} {old : α}
    (hcell : heap.cell address = some old) (value : α) :
    (heap.store address value).count property + (if property old then 1 else 0) =
      heap.count property + if property value then 1 else 0 := by
  have hagain : (heap.release address).store address value = heap.store address value :=
    ext_cell fun other ↦ by
      by_cases hother : other = address
      · simp [hother]
      · simp [hother]
  have hdead : (heap.release address).cell address = none := by simp
  have hrelease : (heap.release address).count property + (if property old then 1 else 0) =
      heap.count property := count_release property hcell
  rw [← hagain, count_store_of_none property hdead, ← hrelease]
  omega

/-- Writing cells without the property over dead addresses changes no count. -/
theorem count_overlay {cells : Address → Option α} {support : List Address}
    (hsupport : ∀ address, address ∈ support ↔ (cells address).isSome)
    (hdead : ∀ address, (cells address).isSome → heap.cell address = none)
    (hproperty : ∀ address value, cells address = some value → property value = false) :
    (heap.overlay cells support hsupport).count property = heap.count property := by
  refine congrArg Finset.card (Finset.ext fun address ↦ ?_)
  rw [Finset.mem_filter, Finset.mem_filter, mem_live, mem_live, cell_overlay]
  cases hcell : cells address with
  | none => rw [Option.none_or]
  | some value =>
    rw [hdead address (by rw [hcell]; rfl), Option.some_or]
    simp [hproperty address value hcell]

end Count

end Heap

namespace Allocator

/-- The allocator that hands out the address just above every live one. -/
def bump : Allocator where
  pick _ live := live.sup id + 1
  fresh _ live hmem := by
    have hle : live.sup id + 1 ≤ live.sup id := Finset.le_sup (f := id) hmem
    omega

end Allocator

end StudStuff.Lib
