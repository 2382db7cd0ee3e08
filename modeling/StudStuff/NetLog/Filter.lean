import StudStuff.NetLog.Address

/-!
# Filters

`filter.h`: filters for a subnet and for a range of addresses, which are created from text, and the
composite filter, which stores up to twenty of them and matches what any of them matches.
-/

set_option autoImplicit false
set_option relaxedAutoImplicit false

namespace StudStuff.NetLog

/-- `find`, `substr(0, pos)` and `substr(pos + 1)`: the parts of a string before and after the
first occurrence of a character. -/
def cutAt (separator : Char) (text : Text) : Option (Text × Text) :=
  (text.idxOf? separator).map fun position ↦ (text.take position, text.drop (position + 1))

/-! ### Subnets -/

/-- `SubnetFilter`. -/
structure SubnetFilter where
  network : BitVec 32
  mask : BitVec 32
  deriving DecidableEq, Repr

/-- `Create32BitMask`. -/
def create32BitMask (pfx : ℕ) : BitVec 32 := if pfx = 0 then 0 else 0xFFFFFFFF <<< (32 - pfx)

/-- `IsValidCIDRPrefix`. -/
def isValidCIDRPrefix (pfx : ℤ) : Bool := 0 ≤ pfx ∧ pfx ≤ 32

/-- `SubnetFilter::Create`. -/
def SubnetFilter.create (cidr : Text) : Option SubnetFilter := do
  let (ipStr, prefixStr) ← cutAt '/' cidr
  let ip ← IPv4Address.fromString ipStr
  let (pfx, last) ← fromCharsSigned prefixStr
  if last ≠ [] ∨ isValidCIDRPrefix pfx = false then none
  else
    let mask := create32BitMask pfx.toNat
    some ⟨ip.toUint32 &&& mask, mask⟩

/-- `SubnetFilter::MatchesImpl`. -/
def SubnetFilter.matchesImpl (filter : SubnetFilter) (ip : IPv4Address) : Bool :=
  ip.toUint32 &&& filter.mask = filter.network

/-! ### Ranges -/

/-- `RangeFilter`. -/
structure RangeFilter where
  left : IPv4Address
  right : IPv4Address
  deriving DecidableEq, Repr

/-- `IsValidRange`. -/
def isValidRange (left right : BitVec 32) : Bool := left ≤ right

/-- `RangeFilter::Create` from two strings. -/
def RangeFilter.createPair (left right : Text) : Option RangeFilter := do
  let ipLeft ← IPv4Address.fromString left
  let ipRight ← IPv4Address.fromString right
  if isValidRange ipLeft.toUint32 ipRight.toUint32 then some ⟨ipLeft, ipRight⟩ else none

/-- `RangeFilter::Create` from one string. -/
def RangeFilter.create (range : Text) : Option RangeFilter := do
  let (leftStr, rightStr) ← cutAt '-' range
  let left ← IPv4Address.fromString leftStr
  let right ← IPv4Address.fromString rightStr
  if isValidRange left.toUint32 right.toUint32 then some ⟨left, right⟩ else none

/-- `std::clamp`. -/
def clamp (ip left right : IPv4Address) : IPv4Address :=
  if ip.addr < left.addr then left else if right.addr < ip.addr then right else ip

/-- `RangeFilter::MatchesImpl`. -/
def RangeFilter.matchesImpl (filter : RangeFilter) (ip : IPv4Address) : Bool :=
  ip = clamp ip filter.left filter.right

/-! ### Composite filters -/

/-- `VarFilter`. -/
inductive VarFilter
  | subnet (filter : SubnetFilter)
  | range (filter : RangeFilter)
  deriving DecidableEq, Repr

/-- `Matches` of the filter in a `VarFilter`. -/
def VarFilter.isMatch : VarFilter → IPv4Address → Bool
  | subnet filter, ip => filter.matchesImpl ip
  | range filter, ip => filter.matchesImpl ip

/-- `CompositeFilter`. -/
structure CompositeFilter where
  filters : List VarFilter
  deriving DecidableEq, Repr

/-- `kMaxFilters`. -/
def kMaxFilters : ℕ := 20

/-- What creating a filter may throw. -/
inductive FilterError
  | filterConfigError (msg : String)
  | lengthError (msg : String)
  deriving DecidableEq, Repr

namespace CompositeFilter

/-- `CompositeFilter::Add`. -/
def add (composite : CompositeFilter) (filter : VarFilter) : Except FilterError CompositeFilter :=
  if composite.filters.length < kMaxFilters then
    .ok ⟨composite.filters ++ [filter]⟩
  else
    .error (.lengthError s!"Maximum number of rules {kMaxFilters} exceeded.")

/-- The loop of `CompositeFilter::Matches`. -/
def matchesAny : List VarFilter → IPv4Address → Bool
  | [], _ => false
  | filter :: filters, ip => if filter.isMatch ip then true else matchesAny filters ip

/-- `CompositeFilter::Matches`. -/
def isMatch (composite : CompositeFilter) (ip : IPv4Address) : Bool :=
  matchesAny composite.filters ip

end CompositeFilter

end StudStuff.NetLog
