import Mathlib.Algebra.Group.Int.Defs
import Mathlib.Algebra.Group.Nat.Defs
import Mathlib.Data.Int.Notation
import StudStuff.Lib.Decimal
import StudStuff.Lib.Segments

/-!
# Formatted input and output

What `operator>>` of `std::istream` and `operator<<` of `std::ostream` do with strings and with
`int`, in the classic locale. A stream that is read is the list of the characters that are left.

A string that is extracted is not empty and has no white space (`IsWord`). What is written, a word,
a space and a number, is extracted again (`extractWord_word`, `extractInt_printInt`).
-/

set_option autoImplicit false
set_option relaxedAutoImplicit false

namespace StudStuff.Students

open Lib Lib.Decimal

/-- `std::isspace` in the classic locale. -/
def isSpace (ch : Char) : Bool := ch ∈ [' ', '\t', '\n', '\x0b', '\x0c', '\r']

/-- `iss >> name`: the characters up to the next white space, after white space was skipped. It
fails when there are none. -/
def extractWord (text : List Char) : Option (List Char × List Char) :=
  let text := text.dropWhile isSpace
  if text = [] then none
  else some (text.takeWhile (!isSpace ·), text.dropWhile (!isSpace ·))

/-- The sign at the front of a number. -/
def takeSign : List Char → Bool × List Char
  | '-' :: text => (true, text)
  | '+' :: text => (false, text)
  | text => (false, text)

/-- The value of the digits of a number with a sign. -/
def signedValue (negative : Bool) (digits : List Char) : ℤ :=
  if negative then -(Nat.ofDigitChars 10 digits 0 : ℤ) else Nat.ofDigitChars 10 digits 0

/-- `iss >> grade`: a sign and digits, after white space was skipped. It fails when there are no
digits and when the value is no `int`. -/
def extractInt (text : List Char) : Option (ℤ × List Char) :=
  let (negative, unsigned) := takeSign (text.dropWhile isSpace)
  let digits := unsigned.takeWhile Char.isDigit
  let value := signedValue negative digits
  if digits = [] ∨ value < -2 ^ 31 ∨ 2 ^ 31 ≤ value then none
  else some (value, unsigned.dropWhile Char.isDigit)

/-- `os << grade`. -/
def printInt (value : ℤ) : List Char :=
  if value < 0 then '-' :: Nat.toDigits 10 value.natAbs else Nat.toDigits 10 value.natAbs

/-! ### What is extracted -/

/-- A string that can be extracted. -/
def IsWord (word : List Char) : Prop := word ≠ [] ∧ ∀ ch ∈ word, isSpace ch = false

section Extraction

variable {text rest word : List Char} {value : ℤ}

/-- An extracted string is a word. -/
theorem isWord_extractWord (h : extractWord text = some (word, rest)) : IsWord word := by
  rw [extractWord] at h
  split_ifs at h with hempty
  obtain ⟨hword, hrest⟩ := Prod.mk.inj (Option.some.inj h)
  have hstart : ∀ ch ∈ (text.dropWhile isSpace).head?, isSpace ch = false :=
    (scan_iff.mp ⟨rfl, rfl⟩).2.2
  obtain ⟨hsplit, hchars, hstop⟩ := scan_iff.mp ⟨hword, hrest⟩
  constructor
  · rintro rfl
    rw [List.nil_append] at hsplit
    obtain ⟨ch, tail, htext⟩ := List.exists_cons_of_ne_nil hempty
    rw [htext] at hstart
    rw [← hsplit, htext] at hstop
    have hnot := hstop ch rfl
    rw [hstart ch rfl] at hnot
    cases hnot
  · intro ch hmem
    simpa using hchars ch hmem

/-- A word is extracted up to the white space that follows. -/
theorem extractWord_word (hword : IsWord word) (hrest : ∀ ch ∈ rest.head?, isSpace ch = true) :
    extractWord (word ++ rest) = some (word, rest) := by
  obtain ⟨hne, hchars⟩ := hword
  have hskip : (word ++ rest).dropWhile isSpace = word ++ rest := by
    obtain ⟨ch, tail, rfl⟩ := List.exists_cons_of_ne_nil hne
    have hstop : ¬isSpace ch = true := by simp [hchars ch List.mem_cons_self]
    rw [List.cons_append, List.dropWhile_cons_of_neg hstop]
  have hscan : (word ++ rest).takeWhile (!isSpace ·) = word ∧
      (word ++ rest).dropWhile (!isSpace ·) = rest := by
    refine scan_iff.mpr ⟨rfl, ?_, ?_⟩
    · intro ch hmem
      simp [hchars ch hmem]
    · intro ch hmem
      simp [hrest ch hmem]
  rw [extractWord, hskip, if_neg (List.append_ne_nil_of_left_ne_nil hne rest), hscan.1,
    hscan.2]

theorem extractWord_nil : extractWord [] = none := rfl

/-- An extracted number is an `int`. -/
theorem bounds_extractInt (h : extractInt text = some (value, rest)) :
    -2 ^ 31 ≤ value ∧ value < 2 ^ 31 := by
  rw [extractInt] at h
  cases hsign : takeSign (text.dropWhile isSpace) with
  | mk negative unsigned =>
  rw [hsign] at h
  dsimp only at h
  split_ifs at h with hfails
  obtain ⟨hvalue, -⟩ := Prod.mk.inj (Option.some.inj h)
  rw [hvalue] at hfails
  omega

/-- A digit is no white space. -/
theorem isSpace_digit {ch : Char} (hdigit : ch.isDigit = true) : isSpace ch = false := by
  have hspaces : ∀ other ∈ [' ', '\t', '\n', '\x0b', '\x0c', '\r'], other.isDigit = false := by
    simp [Char.isDigit]
  rw [isSpace, decide_eq_false_iff_not]
  intro hmem
  rw [hspaces ch hmem] at hdigit
  cases hdigit

/-- A number that begins with a digit has no sign. -/
theorem takeSign_digit {ch : Char} (hdigit : ch.isDigit = true) (tail : List Char) :
    takeSign (ch :: tail) = (false, ch :: tail) := by
  unfold takeSign
  split
  · next heq =>
    rw [(List.cons.inj heq).1] at hdigit
    cases hdigit
  · next heq =>
    rw [(List.cons.inj heq).1] at hdigit
    cases hdigit
  · rfl

/-- A number that is not negative is extracted again after a space. -/
theorem extractInt_printInt (hvalue : 0 ≤ value) (hlt : value < 2 ^ 31) :
    extractInt (' ' :: printInt value) = some (value, []) := by
  obtain ⟨n, rfl⟩ := Int.eq_ofNat_of_zero_le hvalue
  have hdigits := isDigit_toDigits n
  have hprint : printInt n = Nat.toDigits 10 n := if_neg (by omega)
  obtain ⟨ch, tail, hnumeral⟩ := List.exists_cons_of_ne_nil (Nat.toDigits_ne_nil (b := 10) (n := n))
  have hch : ch.isDigit = true := hdigits ch (by simp [hnumeral])
  have hskip : (' ' :: Nat.toDigits 10 n).dropWhile isSpace = Nat.toDigits 10 n := by
    rw [List.dropWhile_cons_of_pos rfl, hnumeral, List.dropWhile_cons_of_neg]
    rw [isSpace_digit hch]
    exact Bool.false_ne_true
  have hsign : takeSign (Nat.toDigits 10 n) = (false, Nat.toDigits 10 n) := by
    rw [hnumeral]
    exact takeSign_digit hch tail
  obtain ⟨hread, hleft⟩ := scan_iff.mpr ⟨(List.append_nil _).symm, hdigits, by simp⟩
  have hnumber : signedValue false (Nat.toDigits 10 n) = n :=
    congrArg Nat.cast Nat.ofDigitChars_ten_toDigits
  have hfits : ¬(Nat.toDigits 10 n = [] ∨ (n : ℤ) < -2 ^ 31 ∨ 2 ^ 31 ≤ (n : ℤ)) := by
    rw [or_iff_right Nat.toDigits_ne_nil]
    omega
  rw [hprint, extractInt, hskip, hsign]
  dsimp only
  rw [hread, hleft, hnumber, if_neg hfits]

end Extraction

end StudStuff.Students
