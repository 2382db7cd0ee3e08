import Mathlib.Algebra.Group.Int.Defs
import Mathlib.Algebra.Group.Nat.Defs
import Mathlib.Data.Int.Notation
import Mathlib.Data.Nat.Notation

/-!
# IPv4 addresses

`ip_v4_address.h`. A string is a list of characters, and the pointer of a parser is the part of
the string that it has not read. An address is a number of 32 bits, the first octet on top.
-/

set_option autoImplicit false
set_option relaxedAutoImplicit false

namespace StudStuff.NetLog

/-- A string. -/
abbrev Text := List Char

/-! ### Numbers -/

/-- The value of a string of decimal digits. -/
def digitsValue (digits : Text) : ℕ :=
  digits.foldl (fun value ch ↦ 10 * value + (ch.toNat - '0'.toNat)) 0

/-- `std::from_chars` for `uint32_t`: the value of the digits at the front and the rest of the
string, or an error when there are no digits or their value does not fit. -/
def fromCharsUnsigned (text : Text) : Option (ℕ × Text) :=
  let digits := text.takeWhile Char.isDigit
  if digits = [] ∨ 2 ^ 32 ≤ digitsValue digits then none
  else some (digitsValue digits, text.dropWhile Char.isDigit)

/-- The sign at the front of a string, for `std::from_chars` with a signed type. -/
def takeMinus : Text → Bool × Text
  | '-' :: rest => (true, rest)
  | text => (false, text)

/-- `std::from_chars` for `int`. -/
def fromCharsSigned (text : Text) : Option (ℤ × Text) :=
  let (negative, unsigned) := takeMinus text
  let digits := unsigned.takeWhile Char.isDigit
  let value : ℤ := if negative then -(digitsValue digits : ℤ) else digitsValue digits
  if digits = [] ∨ value < -2 ^ 31 ∨ 2 ^ 31 ≤ value then none
  else some (value, unsigned.dropWhile Char.isDigit)

/-! ### Addresses -/

/-- `IPv4Address`. -/
structure IPv4Address where
  addr : BitVec 32
  deriving DecidableEq, Repr

namespace IPv4Address

/-- The private constructor. -/
def ofOctets (first second third fourth : ℕ) : IPv4Address where
  addr := BitVec.ofNat 32 first <<< 24 ||| BitVec.ofNat 32 second <<< 16 |||
    BitVec.ofNat 32 third <<< 8 ||| BitVec.ofNat 32 fourth

/-- `FromBytes`. -/
def fromBytes : List ℕ → Option IPv4Address
  | [first, second, third, fourth] =>
    if 255 < first ∨ 255 < second ∨ 255 < third ∨ 255 < fourth then none
    else some (ofOctets first second third fourth)
  | _ => none

/-- `ContainValidIPSymbols`. -/
def containValidIPSymbols (ip : Text) : Bool :=
  ip.all fun ch ↦ !((ch < '0' || '9' < ch) && ch != '.')

/-- The part of an iteration of `FromString` that reads an octet. -/
def parseOctet : Text → Option (ℕ × Text)
  | [] => none
  | ch :: rest =>
    if ch = '.' then none
    else if ch = '0' ∧ rest ≠ [] ∧ rest.head? ≠ some '.' then none
    else fromCharsUnsigned (ch :: rest)

/-- The part of an iteration that skips the dot after an octet. -/
def skipDot : Text → Option Text
  | '.' :: rest => some rest
  | _ => none

/-- The loop of `FromString`, which has some octets still to read: the octets, the number of dots
and the rest of the string. -/
def parseOctets : ℕ → ℕ → Text → Option (List ℕ × ℕ × Text)
  | 0, dotCount, text => some ([], dotCount, text)
  | remaining + 1, dotCount, text => do
    let (value, next) ← parseOctet text
    let (dotCount, next) ← if remaining = 0 then some (dotCount, next)
      else (skipDot next).map fun next ↦ (dotCount + 1, next)
    let (octets, dotCount, last) ← parseOctets remaining dotCount next
    return (value :: octets, dotCount, last)

/-- `FromString`. -/
def fromString (text : Text) : Option IPv4Address := do
  if containValidIPSymbols text then
    let (octets, dotCount, last) ← parseOctets 4 0 text
    if last ≠ [] ∨ dotCount ≠ 3 then none
    else fromBytes octets
  else none

/-- `ToUint32`. -/
def toUint32 (ip : IPv4Address) : BitVec 32 := ip.addr

end IPv4Address

end StudStuff.NetLog
