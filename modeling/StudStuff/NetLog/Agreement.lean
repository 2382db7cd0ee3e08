import StudStuff.Lib.LowBits
import StudStuff.NetLog.Cidr

/-!
# Subnets are ranges

The subnet of an address and a prefix is the range from the address with the remaining bits cleared
to the one with them set. Both filters can be created from the canonical texts, and they match the
same addresses (`subnet_agrees_range`).
-/

set_option autoImplicit false
set_option relaxedAutoImplicit false

namespace StudStuff.NetLog

open Lib Lib.Decimal

/-! ### Texts of filters -/

/-- The canonical text of a subnet. -/
def subnetText (ip : IPv4Address) (pfx : ℕ) : Text := ip.render ++ '/' :: Nat.toDigits 10 pfx

/-- The canonical text of a range. -/
def rangeText (left right : IPv4Address) : Text := left.render ++ '-' :: right.render

namespace IPv4Address

/-- The address with all but the leading bits cleared. -/
def first (ip : IPv4Address) (pfx : ℕ) : IPv4Address := ⟨clearLow (32 - pfx) ip.addr⟩

/-- The address with all but the leading bits set. -/
def last (ip : IPv4Address) (pfx : ℕ) : IPv4Address := ⟨setLow (32 - pfx) ip.addr⟩

end IPv4Address

/-! ### The two filters -/

section Agreement

variable {pfx : ℕ}

/-- `Create32BitMask` makes a mask of leading ones. -/
theorem create32BitMask_eq (pfx : ℕ) :
    create32BitMask pfx = BitVec.allOnes 32 <<< (32 - pfx) := by
  rw [create32BitMask]
  split_ifs with hzero
  · rw [hzero]
    decide
  · rfl

/-- The numeral of a prefix is read back. -/
theorem fromCharsSigned_toDigits (hpfx : pfx ≤ 32) :
    fromCharsSigned (Nat.toDigits 10 pfx) = some ((pfx : ℤ), []) := by
  have hdigits := isDigit_toDigits pfx
  have hplain : (Nat.toDigits 10 pfx).head? ≠ some '-' := by
    intro hminus
    cases hdigits '-' (List.mem_of_mem_head? hminus)
  exact (fromCharsSigned_plain hplain).mpr
    ⟨Nat.toDigits_ne_nil, hdigits, congrArg _ (digitsValue_toDigits pfx), by omega, by omega⟩

theorem fromString_render (ip : IPv4Address) : IPv4Address.fromString ip.render = some ip :=
  IPv4Address.fromString_eq_some_iff.mpr rfl

/-- The filter of a subnet. -/
theorem create_subnetText (ip : IPv4Address) (hpfx : pfx ≤ 32) :
    SubnetFilter.create (subnetText ip pfx) =
      some ⟨clearLow (32 - pfx) ip.addr, BitVec.allOnes 32 <<< (32 - pfx)⟩ := by
  have hvalid : isValidCIDRPrefix pfx = true := by
    rw [isValidCIDRPrefix, decide_eq_true_eq]
    omega
  refine create_eq_some_iff.mpr
    ⟨_, _, ip, pfx, rfl, fromString_render ip, fromCharsSigned_toDigits hpfx, hvalid, ?_⟩
  rw [Int.toNat_natCast, create32BitMask_eq, IPv4Address.toUint32, and_mask]

/-- The filter of a range. -/
theorem create_rangeText {left right : IPv4Address} (hle : left.addr ≤ right.addr) :
    RangeFilter.create (rangeText left right) = some ⟨left, right⟩ := by
  have hcut := cutAt_quad '-' (by decide) (fromString_render left) right.render
  have hvalid : isValidRange left.toUint32 right.toUint32 = true := decide_eq_true hle
  rw [RangeFilter.create, rangeText, hcut]
  simp only [Option.bind_eq_bind, Option.bind_some, fromString_render, hvalid, if_pos]

/-- The mask test of a subnet is a comparison of leading bits. -/
theorem matches_subnet (ip probe : IPv4Address) :
    (SubnetFilter.mk (clearLow (32 - pfx) ip.addr)
        (BitVec.allOnes 32 <<< (32 - pfx))).matchesImpl probe = true ↔
      clearLow (32 - pfx) probe.addr = clearLow (32 - pfx) ip.addr := by
  rw [SubnetFilter.matchesImpl, decide_eq_true_eq, IPv4Address.toUint32, and_mask]

/-- A range matches what `std::clamp` leaves as it is. -/
theorem matches_range (left right probe : IPv4Address) :
    (RangeFilter.mk left right).matchesImpl probe = true ↔
      left.addr ≤ probe.addr ∧ probe.addr ≤ right.addr := by
  rw [RangeFilter.matchesImpl, decide_eq_true_eq, clamp, ← BitVec.not_lt, ← BitVec.not_lt]
  split_ifs with hlow hhigh
  · constructor
    · rintro rfl
      exact absurd hlow (BitVec.lt_irrefl _)
    · intro hbetween
      exact absurd hlow hbetween.1
  · constructor
    · rintro rfl
      exact absurd hhigh (BitVec.lt_irrefl _)
    · intro hbetween
      exact absurd hhigh hbetween.2
  · exact iff_of_true rfl ⟨hlow, hhigh⟩

/-- The filter of a subnet and the filter of its range are both created, and match the same
addresses. -/
theorem subnet_agrees_range (ip : IPv4Address) (hpfx : pfx ≤ 32) :
    ∃ subnet range, SubnetFilter.create (subnetText ip pfx) = some subnet ∧
      RangeFilter.create (rangeText (ip.first pfx) (ip.last pfx)) = some range ∧
      ∀ probe : IPv4Address, subnet.matchesImpl probe = range.matchesImpl probe ∧
        (probe.toUint32 &&& subnet.mask = subnet.network ↔
          (ip.first pfx).toUint32 ≤ probe.toUint32 ∧
            probe.toUint32 ≤ (ip.last pfx).toUint32) := by
  have hbetween (probe : IPv4Address) :
      (ip.first pfx).addr ≤ probe.addr ∧ probe.addr ≤ (ip.last pfx).addr ↔
        clearLow (32 - pfx) probe.addr = clearLow (32 - pfx) ip.addr :=
    between_iff (Nat.sub_le 32 pfx)
  have hself := (hbetween ip).mpr rfl
  refine ⟨_, _, create_subnetText ip hpfx,
    create_rangeText (BitVec.le_trans hself.1 hself.2), ?_⟩
  intro probe
  constructor
  · rw [Bool.eq_iff_iff, matches_subnet, matches_range, hbetween]
  · rw [IPv4Address.toUint32, and_mask]
    exact (hbetween probe).symm

/-- The subnet `192.168.1.7/24`, which has a host part. -/
theorem subnet_agrees_range_host :
    ∃ subnet range, SubnetFilter.create (subnetText ⟨0xC0A80107⟩ 24) = some subnet ∧
      RangeFilter.create (rangeText ⟨0xC0A80100⟩ ⟨0xC0A801FF⟩) = some range ∧
      ∀ probe : IPv4Address, subnet.matchesImpl probe = range.matchesImpl probe ∧
        (probe.toUint32 &&& subnet.mask = subnet.network ↔
          0xC0A80100 ≤ probe.toUint32 ∧ probe.toUint32 ≤ 0xC0A801FF) :=
  subnet_agrees_range ⟨0xC0A80107⟩ (by decide)

end Agreement

end StudStuff.NetLog
