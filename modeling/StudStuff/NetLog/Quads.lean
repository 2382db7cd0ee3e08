import Mathlib.Logic.Function.Defs
import Mathlib.Tactic.SplitIfs
import StudStuff.Lib.Decimal
import StudStuff.Lib.Segments
import StudStuff.NetLog.Address

/-!
# Dotted quads

The canonical text of an address (`IPv4Address.render`) is its four octets in decimal, the most
significant one first, with dots between them. `FromString` accepts the canonical texts and nothing
else, and reads the address back (`fromString_bijective`): an octet that the loop reads is the
numeral of its value (`text_of_parseOctet`, `parseOctet_toDigits`), the loop reads as many of them
as it has to (`parseOctets_eq_iff`), and four octets are the same as an address
(`fromBytes_eq_iff`).
-/

set_option autoImplicit false
set_option relaxedAutoImplicit false

namespace StudStuff.NetLog

open Lib Lib.Decimal

/-! ### Texts of addresses -/

/-- Decimal numbers with dots between them. -/
def dotted : List ℕ → Text
  | [] => []
  | [value] => Nat.toDigits 10 value
  | value :: values => Nat.toDigits 10 value ++ '.' :: dotted values

/-- A numeral has the value that it is the numeral of. -/
theorem digitsValue_toDigits (value : ℕ) : digitsValue (Nat.toDigits 10 value) = value :=
  Nat.ofDigitChars_eq_foldl.symm.trans Nat.ofDigitChars_ten_toDigits

namespace IPv4Address

/-- The four octets of an address, the most significant one first. -/
def octets (ip : IPv4Address) : List ℕ :=
  [ip.addr.toNat / 2 ^ 24, ip.addr.toNat / 2 ^ 16 % 2 ^ 8, ip.addr.toNat / 2 ^ 8 % 2 ^ 8,
    ip.addr.toNat % 2 ^ 8]

/-- The canonical text of an address. -/
def render (ip : IPv4Address) : Text := dotted ip.octets

/-! ### Octets -/

section Octets

variable {first second third fourth : ℕ}

/-- The number that four octets stand for. -/
theorem toNat_ofOctets (hfirst : first ≤ 255) (hsecond : second ≤ 255) (hthird : third ≤ 255)
    (hfourth : fourth ≤ 255) : (ofOctets first second third fourth).addr.toNat =
      2 ^ 24 * first + (2 ^ 16 * second + (2 ^ 8 * third + fourth)) := by
  have hshift {octet shift : ℕ} (hoctet : octet ≤ 255) (hle : shift ≤ 24) :
      (BitVec.ofNat 32 octet <<< shift).toNat = 2 ^ shift * octet := by
    have hpower : 2 ^ shift ≤ 2 ^ 24 := Nat.pow_le_pow_right (by decide) hle
    have hproduct : 2 ^ shift * octet ≤ 2 ^ 24 * 255 := Nat.mul_le_mul hpower hoctet
    rw [BitVec.toNat_shiftLeft, BitVec.toNat_ofNat, Nat.mod_eq_of_lt (a := octet) (by omega),
      Nat.shiftLeft_eq, Nat.mul_comm, Nat.mod_eq_of_lt (by omega)]
  have hlast : (BitVec.ofNat 32 fourth).toNat = fourth := by
    rw [BitVec.toNat_ofNat, Nat.mod_eq_of_lt (by omega)]
  rw [ofOctets, BitVec.toNat_or, BitVec.toNat_or, BitVec.toNat_or,
    hshift hfirst (Nat.le_refl 24), hshift hsecond (by decide), hshift hthird (by decide), hlast,
    Nat.or_assoc, Nat.or_assoc, ← Nat.two_pow_add_eq_or_of_lt (i := 8) (by omega) third,
    ← Nat.two_pow_add_eq_or_of_lt (i := 16) (by omega) second,
    ← Nat.two_pow_add_eq_or_of_lt (i := 24) (by omega) first]

theorem octets_ofOctets (hfirst : first ≤ 255) (hsecond : second ≤ 255) (hthird : third ≤ 255)
    (hfourth : fourth ≤ 255) :
    (ofOctets first second third fourth).octets = [first, second, third, fourth] := by
  have hvalue := toNat_ofOctets hfirst hsecond hthird hfourth
  simp only [octets, hvalue, List.cons.injEq, and_true]
  omega

/-- The octets of an address are numbers below `256` that stand for it. -/
theorem fromBytes_octets (ip : IPv4Address) : fromBytes ip.octets = some ip := by
  have hlt := ip.addr.isLt
  have hfirst : ip.addr.toNat / 2 ^ 24 ≤ 255 := by omega
  have hsecond : ip.addr.toNat / 2 ^ 16 % 2 ^ 8 ≤ 255 := by omega
  have hthird : ip.addr.toNat / 2 ^ 8 % 2 ^ 8 ≤ 255 := by omega
  have hfourth : ip.addr.toNat % 2 ^ 8 ≤ 255 := by omega
  have hvalue := toNat_ofOctets hfirst hsecond hthird hfourth
  have haddr : (ofOctets (ip.addr.toNat / 2 ^ 24) (ip.addr.toNat / 2 ^ 16 % 2 ^ 8)
      (ip.addr.toNat / 2 ^ 8 % 2 ^ 8) (ip.addr.toNat % 2 ^ 8)).addr = ip.addr := by
    apply BitVec.eq_of_toNat_eq
    omega
  rw [octets, fromBytes, if_neg (by omega)]
  exact congrArg (fun addr ↦ some (IPv4Address.mk addr)) haddr

/-- Four octets are the same as an address. -/
theorem fromBytes_eq_iff {values : List ℕ} {ip : IPv4Address} :
    fromBytes values = some ip ↔ values = ip.octets := by
  constructor
  · intro h
    unfold fromBytes at h
    split at h
    · split_ifs at h with hrange
      obtain rfl := Option.some.inj h
      rw [octets_ofOctets (by omega) (by omega) (by omega) (by omega)]
    · cases h
  · rintro rfl
    exact fromBytes_octets ip

end Octets

/-! ### Reading numbers -/

section Numbers

variable {text rest : Text} {value : ℕ}

theorem fromCharsUnsigned_eq_iff : fromCharsUnsigned text = some (value, rest) ↔
    ∃ digits, (text = digits ++ rest ∧ (∀ ch ∈ digits, ch.isDigit = true) ∧
      ∀ ch ∈ rest.head?, ch.isDigit = false) ∧ digits ≠ [] ∧ digitsValue digits = value ∧
        value < 2 ^ 32 := by
  unfold fromCharsUnsigned
  dsimp only
  constructor
  · intro h
    split_ifs at h with hfails
    obtain ⟨hvalue, hrest⟩ := Prod.mk.inj (Option.some.inj h)
    rw [not_or, Nat.not_le] at hfails
    exact ⟨_, scan_iff.mp ⟨rfl, hrest⟩, hfails.1, hvalue, hvalue ▸ hfails.2⟩
  · rintro ⟨digits, hscan, hne, rfl, hlt⟩
    obtain ⟨hdigits, hrest⟩ := scan_iff.mpr hscan
    rw [hdigits, hrest, if_neg (not_or.mpr ⟨hne, Nat.not_le.mpr hlt⟩)]

/-- The characters that `FromString` accepts. -/
theorem containValidIPSymbols_iff :
    containValidIPSymbols text = true ↔ ∀ ch ∈ text, ch.isDigit = true ∨ ch = '.' := by
  rw [containValidIPSymbols, List.all_eq_true]
  refine forall₂_congr fun ch hmem ↦ ?_
  have hdigit : (decide (ch < '0') || decide ('9' < ch)) = !ch.isDigit := by
    simp [Char.isDigit, Char.lt_def, ← UInt32.not_le]
  rw [hdigit]
  simp

/-- What is read of an octet has no leading zero. -/
theorem digits_eq_zero {ch : Char} {tail digits : Text} (htext : ch :: tail = digits ++ rest)
    (hdigits : ∀ ch ∈ digits, ch.isDigit = true) (hhead : digits.head? = some '0')
    (hzero : ¬(ch = '0' ∧ tail ≠ [] ∧ tail.head? ≠ some '.')) : digits = ['0'] := by
  obtain ⟨more, rfl⟩ := List.head?_eq_some_iff.mp hhead
  obtain ⟨rfl, rfl⟩ := List.cons.inj htext
  cases more with
  | nil => rfl
  | cons next more =>
    have hnext : next.isDigit = true := hdigits next (by simp)
    refine absurd ⟨rfl, by simp, ?_⟩ hzero
    intro hdot
    rw [Option.some.inj hdot] at hnext
    cases hnext

/-- What is read of an octet is the numeral of its value. -/
theorem text_of_parseOctet (hsymbols : ∀ ch ∈ text, ch.isDigit = true ∨ ch = '.')
    (h : parseOctet text = some (value, rest)) :
    text = Nat.toDigits 10 value ++ rest ∧ (∀ ch ∈ rest.head?, ch = '.') ∧ value < 2 ^ 32 := by
  cases text with
  | nil => cases h
  | cons ch tail =>
    rw [parseOctet] at h
    split_ifs at h with hdot hzero
    obtain ⟨digits, ⟨htext, hdigits, hrest⟩, hne, hvalue, hlt⟩ := fromCharsUnsigned_eq_iff.mp h
    have hfollow : ∀ ch ∈ rest.head?, ch = '.' := by
      intro next hnext
      have hmem : next ∈ digits ++ rest := List.mem_append_right _ (List.mem_of_mem_head? hnext)
      have hother := hsymbols next (htext ▸ hmem)
      rw [hrest next hnext] at hother
      simpa using hother
    have hnumeral := toDigits_ofDigitChars hdigits hne fun hhead ↦
      digits_eq_zero htext hdigits hhead hzero
    refine ⟨?_, hfollow, hlt⟩
    rw [← hvalue, digitsValue, ← Nat.ofDigitChars_eq_foldl, hnumeral]
    exact htext

/-- The numeral of a number is read as an octet when a dot or nothing follows it. -/
theorem parseOctet_toDigits (hfollow : ∀ ch ∈ rest.head?, ch = '.') (hlt : value < 2 ^ 32) :
    parseOctet (Nat.toDigits 10 value ++ rest) = some (value, rest) := by
  have hdigits := isDigit_toDigits value
  have hrest : ∀ ch ∈ rest.head?, ch.isDigit = false := by
    intro ch hmem
    rw [hfollow ch hmem]
    rfl
  have hread := fromCharsUnsigned_eq_iff.mpr
    ⟨_, ⟨rfl, hdigits, hrest⟩, Nat.toDigits_ne_nil, digitsValue_toDigits value, hlt⟩
  cases hnumeral : Nat.toDigits 10 value with
  | nil => exact absurd hnumeral Nat.toDigits_ne_nil
  | cons ch more =>
    rw [hnumeral] at hread
    have hdot : ch ≠ '.' := by
      rintro rfl
      cases hdigits '.' (by simp [hnumeral])
    have hzero : ¬(ch = '0' ∧ more ++ rest ≠ [] ∧ (more ++ rest).head? ≠ some '.') := by
      rintro ⟨rfl, hne, hhead⟩
      have hvalue := eq_zero_of_head? (n := value) (by rw [hnumeral]; rfl)
      rw [hvalue, Nat.toDigits_zero, List.cons.injEq] at hnumeral
      rw [← hnumeral.2, List.nil_append] at hne hhead
      obtain ⟨next, hnext⟩ := Option.ne_none_iff_exists'.mp (mt List.head?_eq_none_iff.mp hne)
      exact hhead (hfollow next hnext ▸ hnext)
    rw [List.cons_append, parseOctet, if_neg hdot, if_neg hzero]
    exact hread

end Numbers

/-! ### Reading an address -/

section Address

variable {text last : Text} {remaining dotCount dots : ℕ} {values : List ℕ}

theorem dotted_cons (value : ℕ) (hne : values ≠ []) :
    dotted (value :: values) = Nat.toDigits 10 value ++ '.' :: dotted values := by
  cases values with
  | nil => exact absurd rfl hne
  | cons second values => rfl

/-- The last iteration of the loop. -/
theorem parseOctets_one : parseOctets 1 dotCount text =
    (parseOctet text).map fun (value, next) ↦ ([value], dotCount, next) := by
  rw [parseOctets]
  cases parseOctet text <;> rfl

/-- The other iterations, which skip a dot. -/
theorem parseOctets_step : parseOctets (remaining + 2) dotCount text =
    (parseOctet text).bind fun (value, next) ↦ (skipDot next).bind fun next ↦
      (parseOctets (remaining + 1) (dotCount + 1) next).map fun (values, dots, last) ↦
        (value :: values, dots, last) := by
  rw [parseOctets]
  cases parseOctet text with
  | none => rfl
  | some read =>
    obtain ⟨value, next⟩ := read
    simp only [Option.bind_eq_bind, Option.bind_some, if_neg (Nat.succ_ne_zero remaining)]
    cases skipDot next with
    | none => rfl
    | some next =>
      rw [Option.map_some, Option.bind_some, Option.bind_some]
      cases parseOctets (remaining + 1) (dotCount + 1) next <;> rfl

theorem skipDot_eq_some_iff {next : Text} : skipDot text = some next ↔ text = '.' :: next := by
  constructor
  · intro h
    unfold skipDot at h
    split at h
    · rw [Option.some.inj h]
    · cases h
  · intro htext
    rw [htext]
    rfl

/-- An iteration that skips a dot, and the rest of the loop. -/
theorem parseOctets_step_iff :
    parseOctets (remaining + 2) dotCount text = some (values, dots, last) ↔
      ∃ value next others, parseOctet text = some (value, '.' :: next) ∧
        parseOctets (remaining + 1) (dotCount + 1) next = some (others, dots, last) ∧
        values = value :: others := by
  rw [parseOctets_step, Option.bind_eq_some_iff]
  constructor
  · rintro ⟨⟨value, next⟩, hread, hrest⟩
    obtain ⟨next', hskip, hrest⟩ := Option.bind_eq_some_iff.mp hrest
    obtain ⟨⟨others, dots', last'⟩, hothers, heq⟩ := Option.map_eq_some_iff.mp hrest
    cases heq
    exact ⟨value, next', others, skipDot_eq_some_iff.mp hskip ▸ hread, hothers, rfl⟩
  · rintro ⟨value, next, others, hread, hothers, rfl⟩
    refine ⟨(value, '.' :: next), hread, Option.bind_eq_some_iff.mpr ⟨next, rfl, ?_⟩⟩
    exact Option.map_eq_some_iff.mpr ⟨_, hothers, rfl⟩

/-- The loop reads the numerals of some octets with dots between them, and a dot or nothing follows
them. The induction is on the number of octets. -/
theorem parseOctets_eq_iff (hsymbols : ∀ ch ∈ text, ch.isDigit = true ∨ ch = '.') :
    parseOctets (remaining + 1) dotCount text = some (values, dots, last) ↔
      values.length = remaining + 1 ∧ dots = dotCount + remaining ∧ text = dotted values ++ last ∧
        (∀ ch ∈ last.head?, ch = '.') ∧ ∀ value ∈ values, value < 2 ^ 32 := by
  induction remaining generalizing dotCount text values dots last with
  | zero =>
    rw [parseOctets_one, Option.map_eq_some_iff]
    constructor
    · rintro ⟨⟨value, next⟩, hread, heq⟩
      cases heq
      obtain ⟨htext, hlast, hlt⟩ := text_of_parseOctet hsymbols hread
      exact ⟨rfl, rfl, htext, hlast, fun other hmem ↦ List.mem_singleton.mp hmem ▸ hlt⟩
    · rintro ⟨hlength, rfl, rfl, hlast, hlt⟩
      obtain ⟨value, rfl⟩ := List.length_eq_one_iff.mp hlength
      exact ⟨(value, last), parseOctet_toDigits hlast (hlt value (by simp)), rfl⟩
  | succ remaining ih =>
    rw [parseOctets_step_iff]
    constructor
    · rintro ⟨value, next, others, hread, hothers, rfl⟩
      obtain ⟨htext, -, hlt⟩ := text_of_parseOctet hsymbols hread
      have hnext : ∀ ch ∈ next, ch.isDigit = true ∨ ch = '.' := by
        intro ch hmem
        exact hsymbols ch (by simp [htext, hmem])
      obtain ⟨hlength, hdots, hnext', hlast, hbounds⟩ := (ih hnext).mp hothers
      have hne : others ≠ [] := List.ne_nil_of_length_eq_add_one hlength
      refine ⟨congrArg Nat.succ hlength, by omega, ?_, hlast, ?_⟩
      · rw [dotted_cons value hne, htext, hnext', List.append_assoc, List.cons_append]
      · exact List.forall_mem_cons.mpr ⟨hlt, hbounds⟩
    · rintro ⟨hlength, rfl, htext, hlast, hbounds⟩
      obtain ⟨value, others, rfl⟩ := List.exists_cons_of_length_eq_add_one hlength
      have hlength' : others.length = remaining + 1 := Nat.succ.inj hlength
      have hdots : dotCount + (remaining + 1) = dotCount + 1 + remaining := by omega
      obtain ⟨hlt, hbounds⟩ := List.forall_mem_cons.mp hbounds
      rw [dotted_cons value (List.ne_nil_of_length_eq_add_one hlength'), List.append_assoc,
        List.cons_append] at htext
      have hnext : ∀ ch ∈ dotted others ++ last, ch.isDigit = true ∨ ch = '.' := by
        intro ch hmem
        apply hsymbols ch
        rw [htext]
        exact List.mem_append_right _ (List.mem_cons_of_mem _ hmem)
      have hothers := (ih hnext).mpr ⟨hlength', hdots, rfl, hlast, hbounds⟩
      have hdot : ∀ ch ∈ ('.' :: (dotted others ++ last)).head?, ch = '.' := by
        intro ch hmem
        exact (Option.some.inj hmem).symm
      rw [htext]
      exact ⟨value, _, others, parseOctet_toDigits hdot hlt, hothers, rfl⟩

/-- The characters of a dotted text. -/
theorem symbols_dotted (values : List ℕ) : ∀ ch ∈ dotted values, ch.isDigit = true ∨ ch = '.' := by
  induction values with
  | nil =>
    intro ch hmem
    cases hmem
  | cons value values ih =>
    intro ch hmem
    by_cases hne : values = []
    · rw [hne] at hmem
      exact Or.inl (isDigit_toDigits value ch hmem)
    · rw [dotted_cons value hne, List.mem_append, List.mem_cons] at hmem
      rcases hmem with hmem | hdot | hmem
      · exact Or.inl (isDigit_toDigits value ch hmem)
      · exact Or.inr hdot
      · exact ih ch hmem

/-- `FromString` reads the canonical text of an address, and nothing else. -/
theorem fromString_eq_some_iff {ip : IPv4Address} :
    fromString text = some ip ↔ text = ip.render := by
  rw [fromString]
  constructor
  · intro h
    split_ifs at h with hsymbols
    obtain ⟨⟨values, dots, last⟩, hread, hrest⟩ := Option.bind_eq_some_iff.mp h
    dsimp only at hrest
    split_ifs at hrest with hends
    rw [not_or, not_not, not_not] at hends
    rw [containValidIPSymbols_iff] at hsymbols
    obtain ⟨-, -, htext, -, -⟩ := (parseOctets_eq_iff hsymbols).mp hread
    rw [htext, hends.1, List.append_nil, fromBytes_eq_iff.mp hrest, render]
  · rintro rfl
    have hsymbols : ∀ ch ∈ ip.render, ch.isDigit = true ∨ ch = '.' := symbols_dotted ip.octets
    have hbounds : ∀ value ∈ ip.octets, value < 2 ^ 32 := by
      have hlt := ip.addr.isLt
      intro value hmem
      simp only [octets, List.mem_cons, List.not_mem_nil, or_false] at hmem
      omega
    have hread : parseOctets 4 0 ip.render = some (ip.octets, 3, []) :=
      (parseOctets_eq_iff hsymbols).mpr ⟨rfl, rfl, (List.append_nil _).symm, by simp, hbounds⟩
    rw [if_pos (containValidIPSymbols_iff.mpr hsymbols)]
    refine Option.bind_eq_some_iff.mpr ⟨_, hread, ?_⟩
    dsimp only
    rw [if_neg (by simp)]
    exact fromBytes_octets ip

/-- `FromString` reads the canonical text of an address, and nothing else. So it is a bijection
between the texts that it accepts and the addresses. -/
theorem fromString_bijective : (∀ text ip, fromString text = some ip ↔ text = ip.render) ∧
    Function.Bijective fun accepted : { text : Text // (fromString text).isSome = true } ↦
      (fromString accepted.val).get accepted.property := by
  refine ⟨fun _ _ ↦ fromString_eq_some_iff, ?_, ?_⟩
  · intro first second hequal
    have hfirst := fromString_eq_some_iff.mp (Option.some_get first.property).symm
    have hsecond := fromString_eq_some_iff.mp (Option.some_get second.property).symm
    apply Subtype.ext
    rw [hfirst, hsecond]
    exact congrArg render hequal
  · intro ip
    have hread : fromString ip.render = some ip := fromString_eq_some_iff.mpr rfl
    refine ⟨⟨ip.render, hread ▸ rfl⟩, ?_⟩
    exact Option.get_of_eq_some _ hread

end Address

end IPv4Address

end StudStuff.NetLog
