import Mathlib.Algebra.Order.Ring.Int
import Mathlib.Data.Nat.Prime.Basic
import Mathlib.NumberTheory.LucasLehmer
import Mathlib.Tactic.SplitIfs

/-!
# Trial division in an `int`

`IsPrime` of `algos.cc` divides by every number whose square is not larger. The square of `46341` is
no `int`, so the program has no defined behaviour where the loop gets to this divisor: exactly for
the primes from `46340 ^ 2` on. For every other `int` the result is right (`isPrime_eq`).
-/

set_option autoImplicit false
set_option relaxedAutoImplicit false

namespace StudStuff.Algos

/-- `first * second`, which has no result where it is no `int`. -/
def multiply (first second : ℤ) : Option ℤ :=
  if -2 ^ 31 ≤ first * second ∧ first * second < 2 ^ 31 then some (first * second) else none

theorem multiply_eq_some_iff {first second product : ℤ} :
    multiply first second = some product ↔
      product = first * second ∧ -2 ^ 31 ≤ product ∧ product < 2 ^ 31 := by
  rw [multiply]
  split_ifs with hint
  · rw [Option.some.injEq]
    constructor
    · rintro rfl
      exact ⟨rfl, hint⟩
    · exact fun h ↦ h.1.symm
  · refine iff_of_false not_false ?_
    rintro ⟨rfl, hbounds⟩
    exact hint hbounds

theorem multiply_eq_none_iff {first second : ℤ} : multiply first second = none ↔
    ¬(-2 ^ 31 ≤ first * second ∧ first * second < 2 ^ 31) := by
  rw [multiply]
  split_ifs with hint
  · exact iff_of_false not_false (not_not_intro hint)
  · exact iff_of_true rfl hint

/-- The loop of `IsPrime`. Its `++j` does not overflow (`Tried.le_limit`). -/
def isPrimeLoop (num j : ℤ) : Option Bool :=
  match _hsquare : multiply j j with
  | none => none
  | some square =>
    if square ≤ num then
      if num.tmod j = 0 then some false else isPrimeLoop num (j + 1)
    else some true
termination_by (num + 1 - j).toNat
decreasing_by
  have hle : j ≤ j * j := Int.le_self_sq j |>.trans_eq (sq j)
  have hproduct := (multiply_eq_some_iff.mp ‹_›).1
  omega

/-- `IsPrime`. -/
def isPrime (num : ℤ) : Option Bool :=
  if num < 2 then some false else isPrimeLoop num 2

section Loop

variable {num j : ℤ}

/-- What the loop knows when it gets to a divisor: no smaller one divides the number, and the square
of the one before was not larger than the number. -/
structure Tried (num j : ℤ) : Prop where
  two_le : 2 ≤ j
  indivisible : ∀ d : ℤ, 2 ≤ d → d < j → ¬d ∣ num
  square_le : j = 2 ∨ (j - 1) * (j - 1) ≤ num

/-- A number below the square of the next divisor is prime. -/
theorem Tried.prime (h : Tried num j) (hnum : 2 ≤ num) (hlt : num < j * j) : num.toNat.Prime := by
  obtain ⟨n, rfl⟩ := Int.eq_ofNat_of_zero_le (show 0 ≤ num by omega)
  have htwo : 2 ≤ n := by exact_mod_cast hnum
  rw [Int.toNat_natCast]
  by_contra hcomposite
  have hsquare : (n.minFac : ℤ) * n.minFac ≤ n := by
    exact_mod_cast (sq n.minFac ▸ Nat.minFac_sq_le_self (by omega) hcomposite)
  have hfactor : 2 ≤ n.minFac := (Nat.minFac_prime (by omega)).two_le
  have hsmall : (n.minFac : ℤ) < j := by
    by_contra hle
    have hj := h.two_le
    have hmul := mul_self_le_mul_self (by omega) (not_lt.mp hle)
    omega
  exact h.indivisible n.minFac (by exact_mod_cast hfactor) hsmall
    (Int.natCast_dvd_natCast.mpr (Nat.minFac_dvd n))

/-- A divisor whose square is not larger shows that the number is not prime. -/
theorem not_prime_of_dvd (hj : 2 ≤ j) (hsquare : j * j ≤ num) (hdvd : j ∣ num) :
    ¬num.toNat.Prime := by
  obtain ⟨d, rfl⟩ := Int.eq_ofNat_of_zero_le (show 0 ≤ j by omega)
  have hpos : 0 ≤ num := (mul_self_nonneg _).trans hsquare
  obtain ⟨n, rfl⟩ := Int.eq_ofNat_of_zero_le hpos
  rw [Int.toNat_natCast]
  have hd : 2 ≤ d := by exact_mod_cast hj
  have hdn : d * d ≤ n := by exact_mod_cast hsquare
  intro hprime
  rcases hprime.eq_one_or_self_of_dvd d (Int.natCast_dvd_natCast.mp hdvd) with hone | rfl
  · omega
  · have hgt : d * 1 < d * d := Nat.mul_lt_mul_of_pos_left (by omega) (by omega)
    omega

theorem Tried.next (h : Tried num j) (hsquare : j * j ≤ num) (hmod : ¬num.tmod j = 0) :
    Tried num (j + 1) := by
  refine ⟨by have := h.two_le; omega, fun d hd hlt hdvd ↦ ?_, Or.inr ?_⟩
  · rcases lt_or_eq_of_le (Int.lt_add_one_iff.mp hlt) with hless | rfl
    · exact h.indivisible d hd hless hdvd
    · exact hmod (Int.tmod_eq_zero_of_dvd hdvd)
  · rwa [add_sub_cancel_right]

/-- The greatest `int` whose square is an `int`. -/
theorem square_lt_iff (hj : 0 ≤ j) : j * j < 2 ^ 31 ↔ j ≤ 46340 := by
  constructor
  · intro hlt
    by_contra hgt
    have hmul := mul_self_le_mul_self (by decide) (show 46341 ≤ j by omega)
    omega
  · intro hle
    have hmul := mul_self_le_mul_self hj hle
    omega

/-- Every divisor that the loop gets to is at most `46341`. -/
theorem Tried.le_limit (h : Tried num j) (hnum : num < 2 ^ 31) : j ≤ 46341 := by
  have htwo := h.two_le
  rcases h.square_le with rfl | hsquare
  · decide
  · have hprevious := (square_lt_iff (by omega)).mp (hsquare.trans_lt hnum)
    omega

/-- The loop, from any divisor on. The induction is on its rounds. -/
theorem isPrimeLoop_eq (hnum : 2 ≤ num) (hint : num < 2 ^ 31) (h : Tried num j) :
    isPrimeLoop num j =
      if 46340 ^ 2 ≤ num ∧ num.toNat.Prime then none else some (decide num.toNat.Prime) := by
  fun_induction isPrimeLoop num j with
  | case1 j hnone =>
    -- The square is no `int`: the divisor is 46341, and all smaller ones were tried.
    have htwo := h.two_le
    have hlimit := h.le_limit hint
    have hlarge : ¬j ≤ 46340 := by
      intro hle
      have hnonneg : 0 ≤ j * j := mul_self_nonneg j
      exact multiply_eq_none_iff.mp hnone ⟨by omega, (square_lt_iff (by omega)).mpr hle⟩
    obtain rfl : j = 46341 := by omega
    have hprime := h.prime hnum (by omega)
    have hsquare := h.square_le.resolve_left (by omega)
    rw [if_pos ⟨by omega, hprime⟩]
  | case2 j square hsquare hle hmod =>
    obtain ⟨rfl, -⟩ := multiply_eq_some_iff.mp hsquare
    have hcomposite := not_prime_of_dvd h.two_le hle (Int.dvd_of_tmod_eq_zero hmod)
    rw [if_neg fun hboth ↦ hcomposite hboth.2, decide_eq_false hcomposite]
  | case3 j square hsquare hle hmod ih =>
    obtain ⟨rfl, -⟩ := multiply_eq_some_iff.mp hsquare
    exact ih (h.next hle hmod)
  | case4 j square hsquare hgt =>
    obtain ⟨rfl, -, hlt⟩ := multiply_eq_some_iff.mp hsquare
    have hprime := h.prime hnum (not_le.mp hgt)
    have hsmall : ¬46340 ^ 2 ≤ num := by
      intro hlarge
      have htwo := h.two_le
      have hmul := mul_self_le_mul_self (by omega) ((square_lt_iff (by omega)).mp hlt)
      omega
    rw [if_neg fun hboth ↦ hsmall hboth.1, decide_eq_true hprime]

end Loop

/-- For every `int` but the primes from `46340 ^ 2` on, `IsPrime` says whether it is prime. For
these primes the loop multiplies `46341` by itself. -/
theorem isPrime_eq (num : ℤ) (hint : num < 2 ^ 31) : isPrime num =
    if 46340 ^ 2 ≤ num ∧ num.toNat.Prime then none else some (decide num.toNat.Prime) := by
  rw [isPrime]
  split_ifs with hsmall hoverflow hoverflow
  · omega
  · have hcomposite : ¬num.toNat.Prime := fun hprime ↦ absurd hprime.two_le (by omega)
    rw [decide_eq_false hcomposite]
  · rw [isPrimeLoop_eq (not_lt.mp hsmall) hint ⟨le_rfl, by omega, Or.inl rfl⟩, if_pos hoverflow]
  · rw [isPrimeLoop_eq (not_lt.mp hsmall) hint ⟨le_rfl, by omega, Or.inl rfl⟩, if_neg hoverflow]

/-- The largest `int` is a Mersenne prime. -/
theorem prime_max : (2147483647 : ℤ).toNat.Prime :=
  lucas_lehmer_sufficiency 31 (by decide) (by norm_num)

/-- `IsPrime` has no defined result for the largest `int`. -/
theorem isPrime_eq_max : isPrime 2147483647 = none :=
  (isPrime_eq 2147483647 (by decide)).trans (if_pos ⟨by decide, prime_max⟩)

end StudStuff.Algos
