import Mathlib.Algebra.BigOperators.Group.List.Basic
import Mathlib.Algebra.Order.BigOperators.Group.List
import Mathlib.Algebra.Order.Group.Int
import Mathlib.Algebra.Ring.Int.Defs

/-!
# Reductions with bounded sums

A reduction adds up some values in any grouping: it is a tree whose leaves are the values. Adding
within bounds fails where the sum leaves them, and a reduction fails with it (`reduce`). Where no
value is negative, every partial sum is at most the sum of all values, so the grouping does not
matter (`reduce_eq_sum`).
-/

set_option autoImplicit false
set_option relaxedAutoImplicit false

namespace StudStuff.Lib

/-- A grouping of some values. -/
inductive Reduction
  | leaf (value : ℤ)
  | node (left right : Reduction)
  deriving DecidableEq, Repr

/-- The sum of two numbers if it is within bounds. -/
def addWithin (low high first second : ℤ) : Option ℤ :=
  if low ≤ first + second ∧ first + second ≤ high then some (first + second) else none

namespace Reduction

/-- The values of a reduction from left to right. -/
def leaves : Reduction → List ℤ
  | leaf value => [value]
  | node left right => left.leaves ++ right.leaves

/-- Add up the values. -/
def reduce (low high : ℤ) : Reduction → Option ℤ
  | leaf value => some value
  | node left right =>
    (left.reduce low high).bind fun first ↦
      (right.reduce low high).bind fun second ↦ addWithin low high first second

/-- The grouping of a loop. -/
def ofList (first : ℤ) (values : List ℤ) : Reduction :=
  values.foldl (fun reduction value ↦ node reduction (leaf value)) (leaf first)

variable {low high value : ℤ} {reduction : Reduction}

theorem leaves_ofList (first : ℤ) (values : List ℤ) :
    (ofList first values).leaves = first :: values := by
  have hloop (reduction : Reduction) : (values.foldl
      (fun reduction value ↦ node reduction (leaf value)) reduction).leaves =
        reduction.leaves ++ values := by
    induction values generalizing reduction with
    | nil => exact (List.append_nil _).symm
    | cons value values ih =>
      rw [List.foldl_cons, ih, leaves, leaves, List.append_assoc, List.singleton_append]
  exact hloop (leaf first)

/-- What a reduction computes is within the bounds if the values are. -/
theorem within_of_reduce (hleaves : ∀ leaf ∈ reduction.leaves, low ≤ leaf ∧ leaf ≤ high)
    (h : reduction.reduce low high = some value) : low ≤ value ∧ value ≤ high := by
  cases reduction with
  | leaf first =>
    rw [reduce, Option.some.injEq] at h
    exact h ▸ hleaves first (List.mem_singleton_self first)
  | node left right =>
    rw [reduce, Option.bind_eq_some_iff] at h
    obtain ⟨first, -, h⟩ := h
    obtain ⟨second, -, h⟩ := Option.bind_eq_some_iff.mp h
    rw [addWithin] at h
    split_ifs at h with hwithin
    exact Option.some.inj h ▸ hwithin

/-- Where no value is negative and the sum of all is within the bounds, so are all partial sums. -/
theorem reduce_eq_sum (hlow : low ≤ 0) (hleaves : ∀ leaf ∈ reduction.leaves, 0 ≤ leaf)
    (hsum : reduction.leaves.sum ≤ high) :
    reduction.reduce low high = some reduction.leaves.sum := by
  induction reduction with
  | leaf value =>
    rw [reduce, leaves, List.sum_singleton]
  | node left right ihl ihr =>
    have hleft : ∀ leaf ∈ left.leaves, 0 ≤ leaf := by
      intro leaf hmem
      exact hleaves leaf (List.mem_append_left _ hmem)
    have hright : ∀ leaf ∈ right.leaves, 0 ≤ leaf := by
      intro leaf hmem
      exact hleaves leaf (List.mem_append_right _ hmem)
    have hsum_left := List.sum_nonneg hleft
    have hsum_right := List.sum_nonneg hright
    rw [leaves, List.sum_append] at hsum ⊢
    rw [reduce, ihl hleft (by omega), ihr hright (by omega), Option.bind_some, Option.bind_some,
      addWithin, if_pos (by omega)]

end Reduction

end StudStuff.Lib
