import Mathlib.Data.List.Basic
import Mathlib.Data.List.Induction
import Mathlib.Data.Nat.Init
import Mathlib.Data.Nat.Notation

/-!
# Decimal numerals

The canonical decimal numeral of a number is `Nat.toDigits 10`, and the number that a string of
digits denotes is `Nat.ofDigitChars 10`. A numeral has no leading zero unless it is `0` itself
(`eq_zero_of_head?`), and a string of digits without a leading zero is the numeral of the number it
denotes (`toDigits_ofDigitChars`).
-/

set_option autoImplicit false
set_option relaxedAutoImplicit false

namespace StudStuff.Lib.Decimal

/-! ### Digits -/

section Digits

variable {ch : Char}

/-- The value of a digit. -/
theorem toNat_sub_lt (hdigit : ch.isDigit = true) : ch.toNat - '0'.toNat < 10 := by
  have hbounds : 48 ≤ ch.toNat ∧ ch.toNat ≤ 57 := Char.isDigit_iff_toNat.mp hdigit
  have hzero : '0'.toNat = 48 := rfl
  omega

/-- A digit is the digit of its value. -/
theorem digitChar_toNat_sub (hdigit : ch.isDigit = true) :
    Nat.digitChar (ch.toNat - '0'.toNat) = ch := by
  have hbounds : 48 ≤ ch.toNat ∧ ch.toNat ≤ 57 := Char.isDigit_iff_toNat.mp hdigit
  have hzero : '0'.toNat = 48 := rfl
  have hvalue := Nat.toNat_digitChar_of_lt_ten (toNat_sub_lt hdigit)
  apply Char.toNat_inj.mp
  omega

end Digits

/-! ### Numerals and values -/

section Numerals

variable {digits : List Char} {n : ℕ}

/-- A numeral consists of digits. -/
theorem isDigit_toDigits (n : ℕ) : ∀ ch ∈ Nat.toDigits 10 n, ch.isDigit = true := by
  intro ch hmem
  exact Nat.isDigit_of_mem_toDigits (by decide) (by decide) hmem

/-- The value of a string with one more digit. -/
theorem ofDigitChars_append_digit (front : List Char) (last : Char) :
    Nat.ofDigitChars 10 (front ++ [last]) 0 =
      10 * Nat.ofDigitChars 10 front 0 + (last.toNat - '0'.toNat) := by
  rw [Nat.ofDigitChars_append, Nat.ofDigitChars_cons, Nat.ofDigitChars_nil]

/-- Only the numeral of zero begins with a zero. -/
theorem eq_zero_of_head? (hhead : (Nat.toDigits 10 n).head? = some '0') : n = 0 := by
  induction n using Nat.strong_induction_on with
  | _ n ih =>
    by_cases hlt : n < 10
    · rw [Nat.toDigits_of_lt_base hlt, List.head?_cons, Option.some.injEq] at hhead
      exact Nat.digitChar_eq_zero.mp hhead
    · rw [Nat.toDigits_of_base_le (by decide) (Nat.le_of_not_lt hlt),
        List.head?_append_of_ne_nil _ Nat.toDigits_ne_nil] at hhead
      have hquotient := ih (n / 10) (by omega) hhead
      omega

/-- A string of digits without a leading zero is the numeral of its value. The induction takes the
last digit off. -/
theorem toDigits_ofDigitChars (hdigits : ∀ ch ∈ digits, ch.isDigit = true) (hne : digits ≠ [])
    (hlead : digits.head? = some '0' → digits = ['0']) :
    Nat.toDigits 10 (Nat.ofDigitChars 10 digits 0) = digits := by
  induction digits using List.reverseRecOn with
  | nil => exact absurd rfl hne
  | append_singleton front last ih =>
    have hlast : last.isDigit = true := hdigits last (by simp)
    have hdigit := Nat.toDigits_of_lt_base (toNat_sub_lt hlast)
    rw [digitChar_toNat_sub hlast] at hdigit
    rw [ofDigitChars_append_digit]
    by_cases hfront : front = []
    · rw [hfront, Nat.ofDigitChars_nil, Nat.mul_zero, Nat.zero_add]
      exact hdigit
    · have hhead : front.head? ≠ some '0' := by
        intro hzero
        have hwhole := hlead ((List.head?_append_of_ne_nil _ hfront).trans hzero)
        have hlength := congrArg List.length hwhole
        rw [List.length_append, List.length_singleton, List.length_singleton] at hlength
        exact hfront (List.eq_nil_of_length_eq_zero (by omega))
      have hnumeral := ih (fun ch hmem ↦ hdigits ch (List.mem_append_left _ hmem)) hfront
        fun hzero ↦ absurd hzero hhead
      have hpositive : 0 < Nat.ofDigitChars 10 front 0 := by
        by_contra hzero
        rw [Nat.eq_zero_of_not_pos hzero, Nat.toDigits_zero] at hnumeral
        exact hhead (hnumeral ▸ rfl)
      rw [← Nat.toDigits_append_toDigits (by decide) hpositive (toNat_sub_lt hlast), hnumeral,
        hdigit]

/-- A string of digits denotes zero exactly when all of them are zeros. -/
theorem ofDigitChars_eq_zero_iff (hdigits : ∀ ch ∈ digits, ch.isDigit = true) :
    Nat.ofDigitChars 10 digits 0 = 0 ↔ ∀ ch ∈ digits, ch = '0' := by
  induction digits using List.reverseRecOn with
  | nil => simp [Nat.ofDigitChars_nil]
  | append_singleton front last ih =>
    have hfront : ∀ ch ∈ front, ch.isDigit = true := by
      intro ch hmem
      exact hdigits ch (List.mem_append_left _ hmem)
    have hlast : last.toNat - '0'.toNat = 0 ↔ last = '0' := by
      have hdigit := digitChar_toNat_sub (hdigits last (by simp))
      rw [← Nat.digitChar_eq_zero, hdigit]
    rw [ofDigitChars_append_digit, Nat.add_eq_zero_iff, hlast, Nat.mul_eq_zero,
      or_iff_right (by decide), ih hfront]
    simp only [List.mem_append, List.mem_singleton, or_imp, forall_and, forall_eq]

end Numerals

end StudStuff.Lib.Decimal
