import Mathlib.Data.List.Lex
import StudStuff.NetLog.Agreement

/-!
# Ranges in lexicographic order

`RangeFilter::Create` cuts one text at its first dash, or takes the two addresses apart already.
The two agree on all texts, also on those that contain dashes (`create_eq_createPair`), since a
dash is no character of an address. A range is the addresses whose octets lie between those of its
bounds in lexicographic order (`ranges_lexicographic`), because the octets of an address are the
digits of its number in base `256` (`octets_le_iff`).
-/

set_option autoImplicit false
set_option relaxedAutoImplicit false

namespace StudStuff.NetLog

/-- Addresses are ordered as their octets are in lexicographic order. -/
theorem IPv4Address.octets_le_iff {left right : IPv4Address} :
    left.octets ≤ right.octets ↔ left.addr ≤ right.addr := by
  have hleft := left.addr.isLt
  have hright := right.addr.isLt
  rw [← not_lt, BitVec.le_def]
  simp only [octets, List.cons_lt_cons_iff, List.not_lt_nil, and_false, or_false]
  omega

section Range

variable {text left right : Text}

/-- A text with a dash is no address. -/
theorem fromString_dash (hdash : '-' ∈ text) : IPv4Address.fromString text = none := by
  cases hread : IPv4Address.fromString text with
  | none => rfl
  | some ip =>
    rw [IPv4Address.fromString_eq_some_iff.mp hread] at hdash
    rcases IPv4Address.symbols_dotted ip.octets '-' hdash with hdigit | hdot
    · cases hdigit
    · cases hdot

/-- The two ways to create a range agree. -/
theorem create_eq_createPair (left right : Text) :
    RangeFilter.create (left ++ '-' :: right) = RangeFilter.createPair left right := by
  rw [RangeFilter.create]
  by_cases hdash : '-' ∈ left
  · -- The text is cut inside of `left`, and the dash after `left` is read as part of an address.
    obtain ⟨before, after, hleft, hfresh⟩ := List.eq_append_cons_of_mem hdash
    have hcut : cutAt '-' (left ++ '-' :: right) = some (before, after ++ '-' :: right) := by
      refine cutAt_eq_some_iff.mpr ⟨?_, hfresh⟩
      rw [hleft, List.append_assoc, List.cons_append]
    have hright : IPv4Address.fromString (after ++ '-' :: right) = none := fromString_dash (by simp)
    rw [hcut, RangeFilter.createPair, fromString_dash hdash]
    simp only [Option.bind_eq_bind, Option.bind_some, Option.bind_none, hright]
    cases IPv4Address.fromString before <;> rfl
  · rw [cutAt_eq_some_iff.mpr ⟨rfl, hdash⟩]
    rfl

/-- A range is created from two addresses that are in order. -/
theorem createPair_eq_some_iff {filter : RangeFilter} :
    RangeFilter.createPair left right = some filter ↔
      left = filter.left.render ∧ right = filter.right.render ∧
        filter.left.octets ≤ filter.right.octets := by
  rw [RangeFilter.createPair, IPv4Address.octets_le_iff]
  constructor
  · intro h
    obtain ⟨ipLeft, hleft, h⟩ := Option.bind_eq_some_iff.mp h
    obtain ⟨ipRight, hright, h⟩ := Option.bind_eq_some_iff.mp h
    split_ifs at h with hvalid
    obtain rfl := Option.some.inj h
    exact ⟨IPv4Address.fromString_eq_some_iff.mp hleft,
      IPv4Address.fromString_eq_some_iff.mp hright, of_decide_eq_true hvalid⟩
  · rintro ⟨rfl, rfl, hle⟩
    have hvalid : isValidRange filter.left.toUint32 filter.right.toUint32 = true :=
      decide_eq_true hle
    simp only [fromString_render, Option.bind_eq_bind, Option.bind_some, hvalid, if_pos]

/-- Both ways to create a range agree. They accept two addresses in lexicographic order, and the
range is the addresses between them in that order. Its bounds are as `std::clamp` requires. -/
theorem ranges_lexicographic (left right : Text) :
    RangeFilter.create (left ++ '-' :: right) = RangeFilter.createPair left right ∧
      ((RangeFilter.createPair left right).isSome = true ↔
        ∃ first last : IPv4Address, left = first.render ∧ right = last.render ∧
          first.octets ≤ last.octets) ∧
      ∀ filter, RangeFilter.createPair left right = some filter →
        filter.left.addr ≤ filter.right.addr ∧
        ∃ first last : IPv4Address, left = first.render ∧ right = last.render ∧
          ∀ probe : IPv4Address, filter.matchesImpl probe = true ↔
            first.octets ≤ probe.octets ∧ probe.octets ≤ last.octets := by
  refine ⟨create_eq_createPair left right, ?_, ?_⟩
  · rw [Option.isSome_iff_exists]
    constructor
    · rintro ⟨filter, hfilter⟩
      exact ⟨filter.left, filter.right, createPair_eq_some_iff.mp hfilter⟩
    · rintro ⟨first, last, hcanonical⟩
      exact ⟨⟨first, last⟩, createPair_eq_some_iff.mpr hcanonical⟩
  · intro filter hfilter
    obtain ⟨hleft, hright, hle⟩ := createPair_eq_some_iff.mp hfilter
    refine ⟨IPv4Address.octets_le_iff.mp hle, filter.left, filter.right, hleft, hright, ?_⟩
    intro probe
    rw [IPv4Address.octets_le_iff, IPv4Address.octets_le_iff]
    exact matches_range filter.left filter.right probe

end Range

end StudStuff.NetLog
