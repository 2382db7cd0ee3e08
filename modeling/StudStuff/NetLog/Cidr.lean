import StudStuff.NetLog.Filter
import StudStuff.NetLog.Quads

/-!
# CIDR notation

`SubnetFilter::Create` accepts a dotted quad, a slash and a number of up to `32` in decimal digits
(`IsCidr`). It reads the number as an `int`, so it also accepts a minus sign in front of zeros
(`NegatesZero`), and nothing else (`create_isSome_iff`). It decides CIDR notation on all texts but
these (`create_cidr_iff`).
-/

set_option autoImplicit false
set_option relaxedAutoImplicit false

namespace StudStuff.NetLog

open Lib Lib.Decimal

/-! ### Cutting a text -/

section Cut

variable {separator : Char} {text before after : Text}

/-- A text is cut at the first occurrence of the separator. The induction is on the text. -/
theorem cutAt_eq_some_iff : cutAt separator text = some (before, after) ↔
    text = before ++ separator :: after ∧ separator ∉ before := by
  rw [cutAt, Option.map_eq_some_iff]
  induction text generalizing before with
  | nil => simp
  | cons ch text ih =>
    rw [List.idxOf?_cons]
    by_cases hch : ch = separator
    · rw [if_pos (beq_iff_eq.mpr hch), hch]
      constructor
      · rintro ⟨position, hposition, hcut⟩
        cases hposition
        cases hcut
        exact ⟨rfl, List.not_mem_nil⟩
      · rintro ⟨htext, hfresh⟩
        cases before with
        | nil =>
          cases htext
          exact ⟨0, rfl, rfl⟩
        | cons first before =>
          rw [(List.cons.inj htext).1] at hfresh
          exact absurd List.mem_cons_self hfresh
    · rw [if_neg (mt beq_iff_eq.mp hch)]
      constructor
      · rintro ⟨position, hposition, hcut⟩
        obtain ⟨position', hposition', rfl⟩ := Option.map_eq_some_iff.mp hposition
        cases hcut
        obtain ⟨htext, hfresh⟩ := ih.mp ⟨position', hposition', rfl⟩
        refine ⟨congrArg (List.cons ch) htext, ?_⟩
        exact List.not_mem_cons_of_ne_of_not_mem (Ne.symm hch) hfresh
      · rintro ⟨htext, hfresh⟩
        cases before with
        | nil => exact absurd (List.cons.inj htext).1 hch
        | cons first before =>
          obtain ⟨rfl, rfl⟩ := List.cons.inj htext
          rw [List.mem_cons, not_or] at hfresh
          obtain ⟨position, hposition, hcut⟩ := ih.mpr ⟨rfl, hfresh.2⟩
          obtain ⟨hbefore, hafter⟩ := Prod.mk.inj hcut
          refine ⟨position + 1, Option.map_eq_some_iff.mpr ⟨position, hposition, rfl⟩, ?_⟩
          rw [List.take_succ_cons, List.drop_succ_cons, hbefore, hafter]

end Cut

/-! ### The notation -/

/-- CIDR notation: a dotted quad, a slash, and decimal digits whose value is at most `32`. -/
def IsCidr (text : Text) : Prop :=
  ∃ quad digits, text = quad ++ '/' :: digits ∧ (IPv4Address.fromString quad).isSome = true ∧
    digits ≠ [] ∧ (∀ ch ∈ digits, ch.isDigit = true) ∧ digitsValue digits ≤ 32

/-- A dotted quad and a slash, followed by a minus sign and zeros. -/
def NegatesZero (text : Text) : Prop :=
  ∃ quad zeros, text = quad ++ '/' :: '-' :: zeros ∧
    (IPv4Address.fromString quad).isSome = true ∧ zeros ≠ [] ∧ ∀ ch ∈ zeros, ch = '0'

/-! ### Reading the length of the prefix -/

section Prefix

variable {text zeros : Text} {pfx : ℤ}

/-- What `std::from_chars` makes of digits up to the end of a text. -/
theorem read_eq_some_iff (value : Text → ℤ) :
    (if text.takeWhile Char.isDigit = [] ∨ value (text.takeWhile Char.isDigit) < -2 ^ 31 ∨
        2 ^ 31 ≤ value (text.takeWhile Char.isDigit) then none
      else some (value (text.takeWhile Char.isDigit), text.dropWhile Char.isDigit)) =
        some (pfx, []) ↔
      text ≠ [] ∧ (∀ ch ∈ text, ch.isDigit = true) ∧ value text = pfx ∧ -2 ^ 31 ≤ pfx ∧
        pfx < 2 ^ 31 := by
  constructor
  · intro h
    split_ifs at h with hfails
    obtain ⟨hvalue, hrest⟩ := Prod.mk.inj (Option.some.inj h)
    obtain ⟨htext, hdigits, -⟩ := scan_iff.mp ⟨rfl, hrest⟩
    rw [List.append_nil] at htext
    rw [← htext] at hfails hvalue hdigits
    rw [hvalue, not_or, not_or, Int.not_lt, Int.not_le] at hfails
    exact ⟨hfails.1, hdigits, hvalue, hfails.2⟩
  · rintro ⟨hne, hdigits, rfl, hlow, hhigh⟩
    obtain ⟨hread, hrest⟩ := scan_iff.mpr ⟨(List.append_nil text).symm, hdigits, by simp⟩
    rw [hread, hrest, if_neg]
    rw [not_or, not_or, Int.not_lt, Int.not_le]
    exact ⟨hne, hlow, hhigh⟩

theorem fromCharsSigned_minus : fromCharsSigned ('-' :: zeros) = some (pfx, []) ↔
    zeros ≠ [] ∧ (∀ ch ∈ zeros, ch.isDigit = true) ∧ -(digitsValue zeros : ℤ) = pfx ∧
      -2 ^ 31 ≤ pfx ∧ pfx < 2 ^ 31 :=
  read_eq_some_iff fun digits ↦ -(digitsValue digits : ℤ)

theorem fromCharsSigned_plain (hplain : text.head? ≠ some '-') :
    fromCharsSigned text = some (pfx, []) ↔
      text ≠ [] ∧ (∀ ch ∈ text, ch.isDigit = true) ∧ (digitsValue text : ℤ) = pfx ∧
        -2 ^ 31 ≤ pfx ∧ pfx < 2 ^ 31 := by
  have hminus : takeMinus text = (false, text) := by
    unfold takeMinus
    split
    · exact absurd rfl hplain
    · rfl
  rw [fromCharsSigned, hminus]
  exact read_eq_some_iff fun digits ↦ (digitsValue digits : ℤ)

/-- The texts that pass for the length of a prefix. -/
theorem readsPrefix_iff :
    (∃ pfx, fromCharsSigned text = some (pfx, []) ∧ isValidCIDRPrefix pfx = true) ↔
      (text ≠ [] ∧ (∀ ch ∈ text, ch.isDigit = true) ∧ digitsValue text ≤ 32) ∨
        ∃ zeros, text = '-' :: zeros ∧ zeros ≠ [] ∧ ∀ ch ∈ zeros, ch = '0' := by
  simp only [isValidCIDRPrefix, decide_eq_true_eq]
  by_cases hplain : text.head? = some '-'
  · obtain ⟨zeros, rfl⟩ := List.head?_eq_some_iff.mp hplain
    have hvalue (hdigits : ∀ ch ∈ zeros, ch.isDigit = true) :
        digitsValue zeros = 0 ↔ ∀ ch ∈ zeros, ch = '0' := by
      rw [digitsValue, ← Nat.ofDigitChars_eq_foldl]
      exact ofDigitChars_eq_zero_iff hdigits
    constructor
    · rintro ⟨pfx, hread, hlow, -⟩
      obtain ⟨hne, hdigits, rfl, -⟩ := fromCharsSigned_minus.mp hread
      exact Or.inr ⟨zeros, rfl, hne, (hvalue hdigits).mp (by omega)⟩
    · rintro (⟨-, hdigits, -⟩ | ⟨zeros', heq, hne, hzeros⟩)
      · cases hdigits '-' List.mem_cons_self
      · obtain rfl := (List.cons.inj heq).2
        have hdigits : ∀ ch ∈ zeros, ch.isDigit = true := by
          intro ch hmem
          rw [hzeros ch hmem]
          rfl
        have hzero := (hvalue hdigits).mpr hzeros
        refine ⟨0, fromCharsSigned_minus.mpr ⟨hne, hdigits, ?_⟩, by decide⟩
        omega
  · constructor
    · rintro ⟨pfx, hread, -, hhigh⟩
      obtain ⟨hne, hdigits, rfl, -⟩ := (fromCharsSigned_plain hplain).mp hread
      exact Or.inl ⟨hne, hdigits, by omega⟩
    · rintro (⟨hne, hdigits, hle⟩ | ⟨zeros, rfl, -⟩)
      · exact ⟨digitsValue text, (fromCharsSigned_plain hplain).mpr ⟨hne, hdigits, rfl, by omega⟩,
          by omega⟩
      · exact absurd rfl hplain

end Prefix

/-! ### Creating a filter -/

section Create

variable {text quad rest : Text}

/-- A text is cut after an address, because the separator is no character of an address. -/
theorem cutAt_quad (separator : Char) {ip : IPv4Address}
    (hseparator : separator.isDigit = false ∧ separator ≠ '.')
    (hip : IPv4Address.fromString quad = some ip) (rest : Text) :
    cutAt separator (quad ++ separator :: rest) = some (quad, rest) := by
  refine cutAt_eq_some_iff.mpr ⟨rfl, ?_⟩
  intro hmem
  rw [IPv4Address.fromString_eq_some_iff.mp hip] at hmem
  rcases IPv4Address.symbols_dotted ip.octets separator hmem with hdigit | hdot
  · rw [hseparator.1] at hdigit
    cases hdigit
  · exact hseparator.2 hdot

/-- `Create` reads an address up to the slash, and the length of a prefix after it. -/
theorem create_eq_some_iff {filter : SubnetFilter} : SubnetFilter.create text = some filter ↔
    ∃ quad rest ip pfx, text = quad ++ '/' :: rest ∧ IPv4Address.fromString quad = some ip ∧
      fromCharsSigned rest = some (pfx, []) ∧ isValidCIDRPrefix pfx = true ∧
      filter = ⟨ip.toUint32 &&& create32BitMask pfx.toNat, create32BitMask pfx.toNat⟩ := by
  rw [SubnetFilter.create]
  constructor
  · intro h
    obtain ⟨⟨quad, rest⟩, hcut, h⟩ := Option.bind_eq_some_iff.mp h
    obtain ⟨ip, hip, h⟩ := Option.bind_eq_some_iff.mp h
    obtain ⟨⟨pfx, last⟩, hread, h⟩ := Option.bind_eq_some_iff.mp h
    dsimp only at hip hread h
    split_ifs at h with hfails
    rw [not_or, not_not, Bool.not_eq_false] at hfails
    obtain ⟨rfl, hvalid⟩ := hfails
    exact ⟨quad, rest, ip, pfx, (cutAt_eq_some_iff.mp hcut).1, hip, hread, hvalid,
      (Option.some.inj h).symm⟩
  · rintro ⟨quad, rest, ip, pfx, rfl, hip, hread, hvalid, rfl⟩
    refine Option.bind_eq_some_iff.mpr ⟨_, cutAt_quad '/' (by decide) hip rest, ?_⟩
    refine Option.bind_eq_some_iff.mpr ⟨ip, hip, ?_⟩
    refine Option.bind_eq_some_iff.mpr ⟨_, hread, ?_⟩
    dsimp only
    rw [if_neg (by simp [hvalid])]

/-- `Create` accepts CIDR notation and minus signs in front of zeros. -/
theorem create_isSome_iff :
    (SubnetFilter.create text).isSome = true ↔ IsCidr text ∨ NegatesZero text := by
  constructor
  · intro h
    obtain ⟨filter, hfilter⟩ := Option.isSome_iff_exists.mp h
    obtain ⟨quad, rest, ip, pfx, rfl, hip, hread, hvalid, -⟩ := create_eq_some_iff.mp hfilter
    have hquad : (IPv4Address.fromString quad).isSome = true := hip ▸ rfl
    rcases readsPrefix_iff.mp ⟨pfx, hread, hvalid⟩ with hdigits | ⟨zeros, rfl, hzeros⟩
    · exact Or.inl ⟨quad, rest, rfl, hquad, hdigits⟩
    · exact Or.inr ⟨quad, zeros, rfl, hquad, hzeros⟩
  · intro h
    have hparts : ∃ quad rest, text = quad ++ '/' :: rest ∧
        (IPv4Address.fromString quad).isSome = true ∧
        ∃ pfx, fromCharsSigned rest = some (pfx, []) ∧ isValidCIDRPrefix pfx = true := by
      rcases h with ⟨quad, digits, rfl, hquad, hdigits⟩ | ⟨quad, zeros, rfl, hquad, hzeros⟩
      · exact ⟨quad, digits, rfl, hquad, readsPrefix_iff.mpr (Or.inl hdigits)⟩
      · exact ⟨quad, _, rfl, hquad, readsPrefix_iff.mpr (Or.inr ⟨zeros, rfl, hzeros⟩)⟩
    obtain ⟨quad, rest, rfl, hquad, pfx, hread, hvalid⟩ := hparts
    obtain ⟨ip, hip⟩ := Option.isSome_iff_exists.mp hquad
    exact Option.isSome_iff_exists.mpr
      ⟨_, create_eq_some_iff.mpr ⟨quad, rest, ip, pfx, rfl, hip, hread, hvalid, rfl⟩⟩

/-- A minus sign is no CIDR notation. -/
theorem not_isCidr_of_negatesZero (h : NegatesZero text) : ¬IsCidr text := by
  rintro ⟨quad', digits, htext, hquad', -, hdigits, -⟩
  obtain ⟨quad, zeros, rfl, hquad, -⟩ := h
  obtain ⟨ip, hip⟩ := Option.isSome_iff_exists.mp hquad
  obtain ⟨ip', hip'⟩ := Option.isSome_iff_exists.mp hquad'
  have hcut := cutAt_quad '/' (by decide) hip ('-' :: zeros)
  rw [htext, cutAt_quad '/' (by decide) hip' digits] at hcut
  rw [(Prod.mk.inj (Option.some.inj hcut)).2] at hdigits
  cases hdigits '-' List.mem_cons_self

/-- `Create` accepts CIDR notation and nothing else, if and only if the text is not a minus sign in
front of zeros. -/
theorem create_cidr_iff (text : Text) :
    ((SubnetFilter.create text).isSome = true ↔ IsCidr text) ↔ ¬NegatesZero text := by
  rw [create_isSome_iff]
  constructor
  · intro hexact hnegates
    exact not_isCidr_of_negatesZero hnegates (hexact.mp (Or.inr hnegates))
  · intro hplain
    exact or_iff_left hplain

/-- The address `1.2.3.4` with the length `-0` is accepted, and it is no CIDR notation. -/
theorem create_accepts_minus :
    ¬((SubnetFilter.create ['1', '.', '2', '.', '3', '.', '4', '/', '-', '0']).isSome = true ↔
      IsCidr ['1', '.', '2', '.', '3', '.', '4', '/', '-', '0']) := by
  intro hexact
  have hnegates : NegatesZero ['1', '.', '2', '.', '3', '.', '4', '/', '-', '0'] :=
    ⟨['1', '.', '2', '.', '3', '.', '4'], ['0'], rfl, by decide, by simp, by simp⟩
  have haccepts := create_isSome_iff.mpr (Or.inr hnegates)
  exact not_isCidr_of_negatesZero hnegates (hexact.mp haccepts)

end Create

end StudStuff.NetLog
