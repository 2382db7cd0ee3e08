import Mathlib.Algebra.BigOperators.Group.List.Basic
import Mathlib.Data.Finset.Card
import Mathlib.Data.Finset.Range
import StudStuff.Lib.Transitions

/-!
# `ParallelAccumulate`

`parallel_accumulate.h`: a sequence is cut into blocks, the pool accumulates all blocks but the
last, the caller accumulates the last one and then adds up what the futures deliver. The values are
those of an additive monoid, which need not be commutative: `T()` is `0`.

The caller and the pool are a transition system. The pool runs a task that it has accepted at any
time, each task once, and the future delivers its result. Iterators are positions in the sequence. A
length is a difference of iterators, so that none of the computations on lengths wraps around
(`numBlocks_toNat`). `handed` and `inlineBlock` are a history of the blocks.

However the steps interleave, the caller returns what `std::accumulate` returns
(`parallelAccumulate_eq`).
-/

set_option autoImplicit false
set_option relaxedAutoImplicit false

namespace StudStuff.ParallelAccumulate

open Lib

/-! ### Blocks -/

/-- `block_size`. -/
def blockSize : ℕ := 25

/-- `num_blocks`. -/
def numBlocks (length : ℕ) : ℕ := (length + blockSize - 1) / blockSize

/-- A range of iterators. -/
structure Block where
  first : ℕ
  last : ℕ
  deriving DecidableEq, Repr

/-- The positions in a range. -/
def Block.positions (block : Block) : List ℕ := List.range' block.first (block.last - block.first)

section Values

variable {T : Type} [AddMonoid T]

/-- `std::accumulate`. -/
def accumulate (range : List T) (init : T) : T := range.foldl (· + ·) init

/-- The elements in a range. -/
def Block.elements (block : Block) (xs : List T) : List T :=
  (xs.drop block.first).take (block.last - block.first)

/-- `accumulate_block`. -/
def accumulateBlock (xs : List T) (block : Block) : T := accumulate (block.elements xs) 0

/-- `std::advance`, which must not leave the sequence. -/
def advance (xs : List T) (position count : ℕ) : Option ℕ :=
  if position + count ≤ xs.length then some (position + count) else none

end Values

/-! ### The caller and the pool -/

/-- How far the caller is: in the loop that enqueues the blocks, in the loop that gets the futures,
or at its end. `pastTheEnd` advanced an iterator past the end of the sequence. -/
inductive Caller (T : Type)
  | enqueuing (index blockStart : ℕ)
  | collecting (index : ℕ) (lastResult result : T)
  | returned (result : T)
  | pastTheEnd

/-- The caller, the tasks that the pool has accepted, and the results of those that it has run. -/
structure State (T : Type) where
  caller : Caller T
  handed : List Block
  futures : ℕ → Option T
  inlineBlock : Option Block

section Steps

variable {T : Type} [AddMonoid T]

/-- The call. An empty sequence returns at once. -/
def State.start (xs : List T) (init : T) : State T where
  caller := if xs.length = 0 then .returned init else .enqueuing 0 0
  handed := []
  futures _ := none
  inlineBlock := none

/-- One step of the caller or of the pool. -/
inductive Step (xs : List T) (init : T) : State T → State T → Prop
  /-- The caller enqueues a block. -/
  | enqueue {s : State T} (index blockStart blockEnd : ℕ)
      (hcaller : s.caller = .enqueuing index blockStart) (hmore : index < numBlocks xs.length - 1)
      (hadvance : advance xs blockStart blockSize = some blockEnd) :
      Step xs init s { s with
        caller := .enqueuing (index + 1) blockEnd
        handed := s.handed ++ [⟨blockStart, blockEnd⟩] }
  /-- The end of a block is past the end of the sequence. -/
  | overrun {s : State T} (index blockStart : ℕ)
      (hcaller : s.caller = .enqueuing index blockStart) (hmore : index < numBlocks xs.length - 1)
      (hadvance : advance xs blockStart blockSize = none) :
      Step xs init s { s with caller := .pastTheEnd }
  /-- The caller accumulates the last block. -/
  | accumulateLast {s : State T} (index blockStart : ℕ)
      (hcaller : s.caller = .enqueuing index blockStart)
      (hdone : ¬index < numBlocks xs.length - 1) :
      Step xs init s { s with
        caller := .collecting 0 (accumulateBlock xs ⟨blockStart, xs.length⟩) init
        inlineBlock := some ⟨blockStart, xs.length⟩ }
  /-- `get` returns. -/
  | collect {s : State T} (index : ℕ) (lastResult result value : T)
      (hcaller : s.caller = .collecting index lastResult result)
      (hmore : index < numBlocks xs.length - 1) (hready : s.futures index = some value) :
      Step xs init s { s with caller := .collecting (index + 1) lastResult (result + value) }
  /-- The caller returns. -/
  | finish {s : State T} (index : ℕ) (lastResult result : T)
      (hcaller : s.caller = .collecting index lastResult result)
      (hdone : ¬index < numBlocks xs.length - 1) :
      Step xs init s { s with caller := .returned (result + lastResult) }
  /-- The pool runs a task that it has accepted and not run yet. -/
  | run {s : State T} (index : ℕ) (block : Block) (hhanded : s.handed[index]? = some block)
      (hnew : s.futures index = none) :
      Step xs init s { s with
        futures := Function.update s.futures index (some (accumulateBlock xs block)) }

/-- The states that the caller and the pool reach in any interleaving. -/
def Reachable (xs : List T) (init : T) (s : State T) : Prop :=
  Relation.ReflTransGen (Step xs init) (.start xs init) s

end Steps

/-! ### Arithmetic of blocks -/

section Arithmetic

variable {length : ℕ}

/-- The blocks cover the sequence, and the last one is not empty. -/
theorem numBlocks_bounds (hpos : 0 < length) :
    blockSize * (numBlocks length - 1) < length ∧
      length ≤ blockSize * (numBlocks length - 1) + blockSize := by
  rw [numBlocks, blockSize]
  omega

/-- The number of blocks, computed in `unsigned long`. -/
theorem numBlocks_toNat (hlength : length < 2 ^ 63) :
    ((UInt64.ofNat length + 25 - 1) / 25).toNat = numBlocks length := by
  have h25 : (25 : UInt64).toNat = 25 := rfl
  have hone : (1 : UInt64).toNat = 1 := rfl
  have hofNat : (UInt64.ofNat length).toNat = length := by
    rw [UInt64.toNat_ofNat']
    omega
  have hsum : (UInt64.ofNat length + 25).toNat = length + 25 := by
    rw [UInt64.toNat_add, hofNat, h25]
    omega
  rw [UInt64.toNat_div, UInt64.toNat_sub_of_le, hsum, h25, hone, numBlocks, blockSize]
  rw [UInt64.le_iff_toNat_le, hsum, hone]
  omega

/-- The block at an index. -/
def blockAt (index : ℕ) : Block := ⟨blockSize * index, blockSize * index + blockSize⟩

/-- The positions in the first blocks. -/
theorem positions_blocks (count : ℕ) :
    ((List.range count).map blockAt).flatMap Block.positions = List.range (blockSize * count) := by
  induction count with
  | zero => rfl
  | succ count ih =>
    have hlast : (blockAt count).positions = List.range' (blockSize * count) blockSize := by
      rw [Block.positions, blockAt, Nat.add_sub_cancel_left]
    rw [List.range_succ, List.map_append, List.flatMap_append, ih, List.map_singleton,
      List.flatMap_singleton, hlast, List.range_eq_range', List.range_eq_range', Nat.mul_succ,
      ← List.range'_append_1, Nat.zero_add]

/-- The blocks of a sequence have every position once. -/
theorem positions_all (hpos : 0 < length) :
    ((List.range (numBlocks length - 1)).map blockAt ++
      [Block.mk (blockSize * (numBlocks length - 1)) length]).flatMap Block.positions =
        List.range length := by
  obtain ⟨hlt, -⟩ := numBlocks_bounds hpos
  have hsplit : blockSize * (numBlocks length - 1) +
      (length - blockSize * (numBlocks length - 1)) = length := by omega
  rw [List.flatMap_append, positions_blocks, List.flatMap_singleton, Block.positions,
    List.range_eq_range', List.range_eq_range']
  conv_rhs => rw [← hsplit, ← List.range'_append_1, Nat.zero_add]

end Arithmetic

/-! ### Accumulating blocks -/

section Accumulating

variable {T : Type} [AddMonoid T] {xs : List T}

theorem accumulate_eq (range : List T) (init : T) : accumulate range init = init + range.sum := by
  induction range generalizing init with
  | nil => rw [List.sum_nil, add_zero, accumulate, List.foldl_nil]
  | cons value range ih =>
    have hstep : accumulate (value :: range) init = accumulate range (init + value) := rfl
    rw [hstep, ih, List.sum_cons, add_assoc]

/-- A range may be accumulated in two parts. -/
theorem accumulate_append (front rest : List T) (init : T) :
    accumulate (front ++ rest) init = accumulate front init + accumulate rest 0 := by
  rw [accumulate_eq, accumulate_eq, accumulate_eq, List.sum_append, zero_add, add_assoc]

/-- One more block is accumulated. -/
theorem accumulate_blockAt (xs : List T) (init : T) (index : ℕ) :
    accumulate (xs.take (blockSize * (index + 1))) init =
      accumulate (xs.take (blockSize * index)) init + accumulateBlock xs (blockAt index) := by
  rw [Nat.mul_succ, List.take_add, accumulate_append, accumulateBlock, Block.elements, blockAt,
    Nat.add_sub_cancel_left]

/-- The last block is accumulated. -/
theorem accumulate_last (xs : List T) (init : T) (position : ℕ) :
    accumulate xs init = accumulate (xs.take position) init +
      accumulateBlock xs ⟨position, xs.length⟩ := by
  have hrest : Block.elements ⟨position, xs.length⟩ xs = xs.drop position := by
    rw [Block.elements]
    exact List.take_of_length_le List.length_drop.le
  rw [accumulateBlock, hrest, ← accumulate_append, List.take_append_drop]

end Accumulating

/-! ### The invariant -/

/-- No block but the last reaches the end of the sequence. -/
theorem advance_block {T : Type} {xs : List T} {index : ℕ} (hpos : 0 < xs.length)
    (hmore : index < numBlocks xs.length - 1) :
    advance xs (blockSize * index) blockSize = some (blockSize * (index + 1)) := by
  obtain ⟨hlt, -⟩ := numBlocks_bounds hpos
  have hle : blockSize * (index + 1) ≤ blockSize * (numBlocks xs.length - 1) :=
    Nat.mul_le_mul_left blockSize hmore
  rw [Nat.mul_succ] at hle ⊢
  exact if_pos (by omega)

section Invariant

variable {T : Type} [AddMonoid T] {xs : List T} {init : T} {s s' : State T}

/-- How far the caller is, and what it has computed. -/
inductive CallerInvariant (xs : List T) (init : T) (s : State T) : Prop
  | empty (hcaller : s.caller = .returned init) (hxs : xs = []) (hhanded : s.handed = [])
      (hinline : s.inlineBlock = none)
  | enqueuing (index : ℕ) (hcaller : s.caller = .enqueuing index (blockSize * index))
      (hpos : 0 < xs.length) (hindex : index ≤ numBlocks xs.length - 1)
      (hhanded : s.handed = (List.range index).map blockAt) (hinline : s.inlineBlock = none)
  | collecting (index : ℕ) (hpos : 0 < xs.length) (hindex : index ≤ numBlocks xs.length - 1)
      (hcaller : s.caller = .collecting index
        (accumulateBlock xs ⟨blockSize * (numBlocks xs.length - 1), xs.length⟩)
        (accumulate (xs.take (blockSize * index)) init))
      (hhanded : s.handed = (List.range (numBlocks xs.length - 1)).map blockAt)
      (hinline : s.inlineBlock = some ⟨blockSize * (numBlocks xs.length - 1), xs.length⟩)
  | returned (hpos : 0 < xs.length) (hcaller : s.caller = .returned (accumulate xs init))
      (hhanded : s.handed = (List.range (numBlocks xs.length - 1)).map blockAt)
      (hinline : s.inlineBlock = some ⟨blockSize * (numBlocks xs.length - 1), xs.length⟩)

/-- The invariant: the futures that are ready belong to blocks that were handed over, and hold their
sums. -/
structure Invariant (xs : List T) (init : T) (s : State T) : Prop where
  caller : CallerInvariant xs init s
  futures : ∀ index value, s.futures index = some value →
    index < s.handed.length ∧ value = accumulateBlock xs (blockAt index)

/-- A block that is handed over is the block at its index. -/
theorem Invariant.handed (h : Invariant xs init s) {index : ℕ} {block : Block}
    (hhanded : s.handed[index]? = some block) :
    index < s.handed.length ∧ block = blockAt index := by
  have hmap {count : ℕ} (heq : s.handed = (List.range count).map blockAt) :
      block = blockAt index := by
    rw [heq, List.getElem?_map] at hhanded
    obtain ⟨index', hindex', rfl⟩ := Option.map_eq_some_iff.mp hhanded
    obtain ⟨-, rfl⟩ := List.getElem?_eq_some_iff.mp hindex'
    rw [List.getElem_range]
  refine ⟨(List.getElem?_eq_some_iff.mp hhanded).1, ?_⟩
  cases h.caller with
  | empty _ _ hnone =>
    rw [hnone] at hhanded
    cases hhanded
  | enqueuing _ _ _ _ heq => exact hmap heq
  | collecting _ _ _ _ heq => exact hmap heq
  | returned _ _ heq => exact hmap heq

theorem invariant_start (xs : List T) (init : T) : Invariant xs init (.start xs init) := by
  refine ⟨?_, fun index value hready ↦ nomatch hready⟩
  by_cases hempty : xs.length = 0
  · exact .empty (if_pos hempty) (List.length_eq_zero_iff.mp hempty) rfl rfl
  · exact .enqueuing 0 (if_neg hempty) (Nat.pos_of_ne_zero hempty) (Nat.zero_le _) rfl rfl

/-- What holds while the caller enqueues. -/
theorem Invariant.of_enqueuing (h : Invariant xs init s) {index blockStart : ℕ}
    (hcaller : s.caller = .enqueuing index blockStart) :
    blockStart = blockSize * index ∧ 0 < xs.length ∧ index ≤ numBlocks xs.length - 1 ∧
      s.handed = (List.range index).map blockAt ∧ s.inlineBlock = none := by
  cases h.caller with
  | enqueuing index' hcaller' hpos hindex hhanded hinline =>
    rw [hcaller, Caller.enqueuing.injEq] at hcaller'
    obtain ⟨rfl, hstart⟩ := hcaller'
    exact ⟨hstart, hpos, hindex, hhanded, hinline⟩
  | empty hother => cases hcaller.symm.trans hother
  | collecting _ _ _ hother => cases hcaller.symm.trans hother
  | returned _ hother => cases hcaller.symm.trans hother

/-- What holds while the caller gets the futures. -/
theorem Invariant.of_collecting (h : Invariant xs init s) {index : ℕ} {lastResult result : T}
    (hcaller : s.caller = .collecting index lastResult result) :
    lastResult = accumulateBlock xs ⟨blockSize * (numBlocks xs.length - 1), xs.length⟩ ∧
      result = accumulate (xs.take (blockSize * index)) init ∧ 0 < xs.length ∧
      index ≤ numBlocks xs.length - 1 ∧
      s.handed = (List.range (numBlocks xs.length - 1)).map blockAt ∧
      s.inlineBlock = some ⟨blockSize * (numBlocks xs.length - 1), xs.length⟩ := by
  cases h.caller with
  | collecting index' hpos hindex hcaller' hhanded hinline =>
    rw [hcaller, Caller.collecting.injEq] at hcaller'
    obtain ⟨rfl, hlast, hresult⟩ := hcaller'
    exact ⟨hlast, hresult, hpos, hindex, hhanded, hinline⟩
  | empty hother => cases hcaller.symm.trans hother
  | enqueuing _ hother => cases hcaller.symm.trans hother
  | returned _ hother => cases hcaller.symm.trans hother

/-- The pool changes nothing that the caller has computed. -/
theorem CallerInvariant.congr (h : CallerInvariant xs init s) (hcaller : s'.caller = s.caller)
    (hhanded : s'.handed = s.handed) (hinline : s'.inlineBlock = s.inlineBlock) :
    CallerInvariant xs init s' := by
  cases h with
  | empty h₁ h₂ h₃ h₄ => exact .empty (hcaller.trans h₁) h₂ (hhanded.trans h₃) (hinline.trans h₄)
  | enqueuing index h₁ hpos hindex h₂ h₃ =>
    exact .enqueuing index (hcaller.trans h₁) hpos hindex (hhanded.trans h₂) (hinline.trans h₃)
  | collecting index hpos hindex h₁ h₂ h₃ =>
    exact .collecting index hpos hindex (hcaller.trans h₁) (hhanded.trans h₂) (hinline.trans h₃)
  | returned hpos h₁ h₂ h₃ =>
    exact .returned hpos (hcaller.trans h₁) (hhanded.trans h₂) (hinline.trans h₃)

/-- Every step keeps the invariant. -/
theorem Invariant.step (h : Invariant xs init s) (hstep : Step xs init s s') :
    Invariant xs init s' := by
  cases hstep with
  | enqueue index blockStart blockEnd hcaller hmore hadvance =>
    obtain ⟨rfl, hpos, -, hhanded, hinline⟩ := h.of_enqueuing hcaller
    obtain rfl := Option.some.inj ((advance_block hpos hmore).symm.trans hadvance)
    refine ⟨.enqueuing (index + 1) rfl hpos hmore ?_ hinline, ?_⟩
    · rw [List.range_succ, List.map_append, ← hhanded]
      rfl
    · intro other value hready
      obtain ⟨hlt, hvalue⟩ := h.futures other value hready
      refine ⟨?_, hvalue⟩
      rw [List.length_append]
      omega
  | overrun index blockStart hcaller hmore hadvance =>
    obtain ⟨rfl, hpos, -⟩ := h.of_enqueuing hcaller
    cases (advance_block hpos hmore).symm.trans hadvance
  | accumulateLast index blockStart hcaller hdone =>
    obtain ⟨rfl, hpos, hindex, hhanded, -⟩ := h.of_enqueuing hcaller
    obtain rfl : index = numBlocks xs.length - 1 := by omega
    exact ⟨.collecting 0 hpos (Nat.zero_le _) rfl hhanded rfl, h.futures⟩
  | collect index lastResult result value hcaller hmore hready =>
    obtain ⟨rfl, rfl, hpos, -, hhanded, hinline⟩ := h.of_collecting hcaller
    obtain ⟨-, rfl⟩ := h.futures index value hready
    refine ⟨.collecting (index + 1) hpos hmore ?_ hhanded hinline, h.futures⟩
    rw [accumulate_blockAt]
  | finish index lastResult result hcaller hdone =>
    obtain ⟨rfl, rfl, hpos, hindex, hhanded, hinline⟩ := h.of_collecting hcaller
    obtain rfl : index = numBlocks xs.length - 1 := by omega
    refine ⟨.returned hpos ?_ hhanded hinline, h.futures⟩
    rw [← accumulate_last]
  | run index block hhanded hnew =>
    obtain ⟨hlt, rfl⟩ := h.handed hhanded
    refine ⟨h.caller.congr rfl rfl rfl, ?_⟩
    intro other value hready
    dsimp only at hready
    by_cases hother : other = index
    · rw [hother, Function.update_self, Option.some.injEq] at hready
      exact ⟨hother ▸ hlt, hother ▸ hready.symm⟩
    · rw [Function.update_of_ne hother] at hready
      exact h.futures other value hready

theorem Reachable.invariant (h : Reachable xs init s) : Invariant xs init s :=
  holds_of_reaches (invariant_start xs init) (fun _ _ _ ↦ Invariant.step) h

end Invariant

/-! ### The caller returns -/

/-- The tasks that are left to the pool, also those that are not enqueued yet. -/
def poolSteps {T : Type} (count : ℕ) (futures : ℕ → Option T) : ℕ :=
  ((Finset.range count).filter fun index ↦ (futures index).isNone).card

/-- Running a task leaves one task less. -/
theorem poolSteps_update {T : Type} {futures : ℕ → Option T} {count index : ℕ}
    (hindex : index < count) (hnew : futures index = none) (value : T) :
    poolSteps count (Function.update futures index (some value)) < poolSteps count futures := by
  apply Finset.card_lt_card
  rw [Finset.ssubset_iff_of_subset]
  · refine ⟨index, ?_, ?_⟩
    · simp [hindex, hnew]
    · simp
  · intro other hmem
    rw [Finset.mem_filter] at hmem ⊢
    refine ⟨hmem.1, ?_⟩
    by_cases hother : other = index
    · rw [hother, hnew]
      rfl
    · rw [Function.update_of_ne hother] at hmem
      exact hmem.2

section Progress

variable {T : Type} [AddMonoid T] {xs : List T} {init : T} {s s' : State T}

/-- The steps that are left to the caller. -/
def callerSteps (count : ℕ) : Caller T → ℕ
  | .enqueuing index _ => (count - index) + count + 2
  | .collecting index _ _ => (count - index) + 1
  | .returned _ => 0
  | .pastTheEnd => 0

/-- The steps that are left. -/
def stepsLeft (xs : List T) (s : State T) : ℕ :=
  callerSteps (numBlocks xs.length - 1) s.caller + poolSteps (numBlocks xs.length - 1) s.futures

/-- No more blocks are handed over than there are before the last one. -/
theorem Invariant.length_handed (h : Invariant xs init s) :
    s.handed.length ≤ numBlocks xs.length - 1 := by
  cases h.caller with
  | empty _ _ hhanded => simp [hhanded]
  | enqueuing index _ _ hindex hhanded => simpa [hhanded] using hindex
  | collecting _ _ _ _ hhanded => simp [hhanded]
  | returned _ _ hhanded => simp [hhanded]

/-- Every step leaves fewer steps. -/
theorem Invariant.stepsLeft_lt (h : Invariant xs init s) (hstep : Step xs init s s') :
    stepsLeft xs s' < stepsLeft xs s := by
  cases hstep with
  | enqueue index blockStart blockEnd hcaller hmore _ =>
    simp only [stepsLeft, hcaller, callerSteps]
    omega
  | overrun index blockStart hcaller _ _ =>
    simp only [stepsLeft, hcaller, callerSteps]
    omega
  | accumulateLast index blockStart hcaller _ =>
    simp only [stepsLeft, hcaller, callerSteps]
    omega
  | collect index lastResult result value hcaller hmore _ =>
    simp only [stepsLeft, hcaller, callerSteps]
    omega
  | finish index lastResult result hcaller _ =>
    simp only [stepsLeft, hcaller, callerSteps]
    omega
  | run index block hhanded hnew =>
    have hlt := Nat.lt_of_lt_of_le (h.handed hhanded).1 h.length_handed
    exact Nat.add_lt_add_left (poolSteps_update hlt hnew _) _

/-- The caller waits for nothing that the pool does not do: where there is no step, it has
returned. -/
theorem Invariant.returned_of_stuck (h : Invariant xs init s)
    (hstuck : ∀ s', ¬Step xs init s s') : ∃ result, s.caller = .returned result := by
  cases h.caller with
  | empty hcaller => exact ⟨init, hcaller⟩
  | returned _ hcaller => exact ⟨_, hcaller⟩
  | enqueuing index hcaller hpos _ _ _ =>
    by_cases hmore : index < numBlocks xs.length - 1
    · exact absurd (.enqueue index _ _ hcaller hmore (advance_block hpos hmore)) (hstuck _)
    · exact absurd (.accumulateLast index _ hcaller hmore) (hstuck _)
  | collecting index _ _ hcaller hhanded _ =>
    by_cases hmore : index < numBlocks xs.length - 1
    · cases hready : s.futures index with
      | some value => exact absurd (.collect index _ _ value hcaller hmore hready) (hstuck _)
      | none =>
        have hblock : s.handed[index]? = some (blockAt index) := by
          rw [hhanded, List.getElem?_map, List.getElem?_range hmore]
          rfl
        exact absurd (.run index _ hblock hready) (hstuck _)
    · exact absurd (.finish index _ _ hcaller hmore) (hstuck _)

/-- A caller that has returned has the sum, and every position was in one block. -/
theorem Invariant.of_returned (h : Invariant xs init s) {result : T}
    (hcaller : s.caller = .returned result) : result = accumulate xs init ∧
      (s.handed ++ s.inlineBlock.toList).flatMap Block.positions = List.range xs.length := by
  cases h.caller with
  | empty hcaller' hxs hhanded hinline =>
    obtain rfl := Caller.returned.inj (hcaller.symm.trans hcaller')
    rw [hxs, hhanded, hinline]
    exact ⟨rfl, rfl⟩
  | returned hpos hcaller' hhanded hinline =>
    refine ⟨Caller.returned.inj (hcaller.symm.trans hcaller'), ?_⟩
    rw [hhanded, hinline]
    exact positions_all hpos
  | enqueuing _ hother => cases hcaller.symm.trans hother
  | collecting _ _ _ hother => cases hcaller.symm.trans hother

/-- No iterator leaves the sequence. -/
theorem Invariant.ne_pastTheEnd (h : Invariant xs init s) : s.caller ≠ .pastTheEnd := by
  intro hcaller
  cases h.caller with
  | empty hother => cases hcaller.symm.trans hother
  | enqueuing _ hother => cases hcaller.symm.trans hother
  | collecting _ _ _ hother => cases hcaller.symm.trans hother
  | returned _ hother => cases hcaller.symm.trans hother

/-- However the steps of the caller and of the pool interleave, no iterator leaves the sequence, the
run ends with the return of the caller, it returns what `std::accumulate` returns, and every
position of the sequence was in exactly one block. -/
theorem parallelAccumulate_eq (xs : List T) (init : T) :
    (∀ s, Reachable xs init s →
      s.caller ≠ .pastTheEnd ∧
      (∀ result, s.caller = .returned result → result = accumulate xs init ∧
        (s.handed ++ s.inlineBlock.toList).flatMap Block.positions = List.range xs.length) ∧
      ((∀ s', ¬Step xs init s s') → ∃ result, s.caller = .returned result)) ∧
    ¬∃ run : ℕ → State T, run 0 = .start xs init ∧ ∀ n, Step xs init (run n) (run (n + 1)) := by
  constructor
  · intro s hreachable
    have h := hreachable.invariant
    exact ⟨h.ne_pastTheEnd, fun _ ↦ h.of_returned, h.returned_of_stuck⟩
  · apply not_infinite_run (stepsLeft xs)
    intro s s' hreachable hstep
    exact (Reachable.invariant hreachable).stepsLeft_lt hstep

end Progress

end StudStuff.ParallelAccumulate
