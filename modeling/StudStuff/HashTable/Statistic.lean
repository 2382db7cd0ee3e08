import Mathlib.Algebra.Group.Action.Defs
import Mathlib.Algebra.Order.BigOperators.Group.List
import Mathlib.Algebra.Order.Group.Nat
import Mathlib.Order.Bounds.Basic
import StudStuff.HashTable.OutOfMemory

/-!
# What the statistic says

`GetStatistic` reports the load factor, rounded to a `double`, and the length of the longest bucket.
Both are determined by the keys that are stored and the number of buckets, whatever the history of
the table is. The second is the number of keys that a lookup compares in the worst case, and this
case occurs (`getStatistic_exact`).
-/

set_option autoImplicit false
set_option relaxedAutoImplicit false

namespace StudStuff.HashTable

open Lib

variable {K V : Type}

/-- A quotient of numbers of type `size_t` that are converted to `double`. -/
def quotient (dividend divisor : ℕ) : Float :=
  dividend.toUInt64.toFloat / divisor.toUInt64.toFloat

/-- `GetStatistic`: the load factor and the length of the longest bucket. -/
def Table.getStatistic (s : Table K V) : Float × ℕ :=
  if s.table.isEmpty then (0, 0)
  else (quotient s.size s.capacity, ((s.table.map List.length).max?).getD 0)

/-- The number of keys that `FindEntry` compares with a key: those in front of the first that is
equivalent, and this one. -/
def Table.comparisons [BEq K] [Hashable K] (s : Table K V) (key : K) : ℕ :=
  let bucket := (s.table[hashFunction key % s.capacity]?).getD []
  min (bucket.findIdx (fun entry ↦ entry.key == key) + 1) bucket.length

/-! ### The longest bucket -/

section Longest

variable {s : Table K V} {bucket : Bucket K V}

theorem Framed.table_ne_nil (h : Framed s) : s.table ≠ [] := by
  intro hnil
  have hlength := h.length
  rw [hnil, List.length_nil] at hlength
  exact h.capacity.ne hlength

theorem getStatistic_fst (h : Framed s) : s.getStatistic.1 = quotient s.size s.capacity := by
  rw [Table.getStatistic, if_neg]
  exact fun hempty ↦ h.table_ne_nil (List.isEmpty_iff.mp hempty)

/-- The length of a bucket that is as long as any other. -/
theorem getStatistic_snd (h : Framed s) : (∃ bucket ∈ s.table, bucket.length = s.getStatistic.2) ∧
    ∀ bucket ∈ s.table, bucket.length ≤ s.getStatistic.2 := by
  have hne : s.table.map List.length ≠ [] := mt List.map_eq_nil_iff.mp h.table_ne_nil
  obtain ⟨longest, hlongest⟩ := Option.isSome_iff_exists.mp (List.isSome_max?_of_ne_nil hne)
  have hsnd : s.getStatistic.2 = longest := by
    rw [Table.getStatistic, if_neg, hlongest, Option.getD_some]
    exact fun hempty ↦ h.table_ne_nil (List.isEmpty_iff.mp hempty)
  obtain ⟨hmem, hle⟩ := List.max?_eq_some_iff.mp hlongest
  obtain ⟨bucket, hbucket, hlength⟩ := List.mem_map.mp hmem
  rw [hsnd]
  exact ⟨⟨bucket, hbucket, hlength⟩, fun other hother ↦ hle _ (List.mem_map_of_mem hother)⟩

/-- The buckets are not longer on average than the longest is. -/
theorem size_le_longest (h : Framed s) : s.size ≤ s.capacity * s.getStatistic.2 := by
  rw [h.size, List.length_flatten, ← h.length, ← smul_eq_mul, ← List.length_map List.length]
  apply List.sum_le_card_nsmul
  intro length hmem
  obtain ⟨bucket, hbucket, rfl⟩ := List.mem_map.mp hmem
  exact (getStatistic_snd h).2 bucket hbucket

end Longest

/-! ### Lookups -/

section Lookups

variable [BEq K] [Hashable K] {s : Table K V} {bucket front : Bucket K V} {entry : Entry K V}
  {key : K} {i : ℕ}

theorem comparisons_eq (hbucket : s.table[hashFunction key % s.capacity]? = some bucket) :
    s.comparisons key = min (bucket.findIdx (fun entry ↦ entry.key == key) + 1) bucket.length := by
  rw [Table.comparisons, hbucket, Option.getD_some]

/-- A lookup compares no more keys than there are in the longest bucket. -/
theorem comparisons_le (h : Framed s) (key : K) : s.comparisons key ≤ s.getStatistic.2 := by
  obtain ⟨bucket, hbucket, -⟩ := findEntry_apply h key
  rw [comparisons_eq hbucket]
  exact (Nat.min_le_right _ _).trans
    ((getStatistic_snd h).2 bucket (List.mem_of_getElem? hbucket))

/-- The entries of one bucket have distinct keys. -/
theorem Invariant.distinct_bucket [EquivBEq K] (h : Invariant s)
    (hbucket : s.table[i]? = some bucket) : Distinct (bucket.map Entry.pair) := by
  obtain ⟨rest, hflatten, -⟩ := flatten_perm hbucket
  have hcontents := h.distinct.perm (hflatten.map Entry.pair)
  rw [List.map_append] at hcontents
  exact (List.pairwise_append.mp hcontents).1

/-- A lookup of the last key of a bucket compares all of them. -/
theorem comparisons_last [EquivBEq K] (h : Invariant s)
    (hbucket : s.table[i]? = some (front ++ [entry])) :
    s.comparisons entry.key = (front ++ [entry]).length := by
  have hindex : hashFunction entry.key % s.capacity = i :=
    h.placed i _ hbucket entry (List.mem_append_right _ (List.mem_singleton_self entry))
  have hdistinct := h.distinct_bucket hbucket
  rw [List.map_append, Distinct, List.pairwise_append] at hdistinct
  have hfront : ∀ other ∈ front, (other.key == entry.key) = false := fun other hother ↦
    hdistinct.2.2 other.pair (List.mem_map_of_mem hother) entry.pair (List.mem_singleton_self _)
  have hfind : (front ++ [entry]).findIdx (fun other ↦ other.key == entry.key) = front.length := by
    rw [List.findIdx_append, List.findIdx_eq_length.mpr hfront, if_neg (lt_irrefl _),
      List.findIdx_cons, BEq.refl, cond_true, Nat.zero_add]
  rw [comparisons_eq (hindex ▸ hbucket), hfind, List.length_append, List.length_singleton,
    Nat.min_self]

end Lookups

/-! ### What determines the statistic -/

section Exact

variable [BEq K] [EquivBEq K] [Hashable K] [LawfulHashable K] {s : Table K V}
  {bucket : Bucket K V} {map : Reference K V} {i : ℕ}

/-- The index of the bucket of a class of equivalent keys. -/
def slot (capacity : ℕ) : KeyClass K → ℕ :=
  Quotient.lift (fun key ↦ hashFunction key % capacity) fun key key' hkey ↦ by
    rw [hashFunction, hashFunction, LawfulHashable.hash_eq key key' hkey]

/-- The keys that share a bucket. -/
def sharing (map : Reference K V) (capacity i : ℕ) : Finset (KeyClass K) :=
  map.keys.filter fun class' ↦ slot capacity class' = i

theorem mem_sharing (h : Invariant s) (hbucket : s.table[i]? = some bucket) (key : K) :
    keyClass key ∈ sharing (toMap s.contents) s.capacity i ↔
      ∃ entry ∈ bucket, keyClass entry.key = keyClass key := by
  have hslot (key : K) : slot s.capacity (keyClass key) = hashFunction key % s.capacity := rfl
  rw [sharing, Finset.mem_filter, Finmap.mem_keys, mem_toMap]
  constructor
  · rintro ⟨⟨pair, hpair, hkey⟩, hi⟩
    obtain ⟨entry, hentry, rfl⟩ := List.mem_map.mp hpair
    obtain ⟨other, hother, hmem⟩ := List.mem_flatten.mp hentry
    obtain ⟨j, hj⟩ := List.mem_iff_getElem?.mp hother
    have hsame : keyClass entry.key = keyClass key := keyClass_eq_iff.mpr hkey
    rw [← hsame, hslot, h.placed j other hj entry hmem] at hi
    rw [hi, hbucket] at hj
    cases hj
    exact ⟨entry, hmem, hsame⟩
  · rintro ⟨entry, hmem, hsame⟩
    have hentry : entry ∈ s.table.flatten :=
      List.mem_flatten.mpr ⟨bucket, List.mem_of_getElem? hbucket, hmem⟩
    refine ⟨⟨entry.pair, List.mem_map_of_mem hentry, keyClass_eq_iff.mp hsame⟩, ?_⟩
    rw [← hsame, hslot, h.placed i bucket hbucket entry hmem]

/-- The length of a bucket is the number of keys that share it. -/
theorem card_sharing (h : Invariant s) (hbucket : s.table[i]? = some bucket) :
    (sharing (toMap s.contents) s.capacity i).card = bucket.length := by
  have hnodup : (bucket.map fun entry ↦ keyClass entry.key).Nodup := by
    have hdistinct := h.distinct_bucket hbucket
    rw [Distinct, List.pairwise_map] at hdistinct
    rw [List.Nodup, List.pairwise_map]
    refine hdistinct.imp fun {first second} hne heq ↦ ?_
    exact absurd (keyClass_eq_iff.mp heq) (Bool.eq_false_iff.mp hne)
  have hclasses : sharing (toMap s.contents) s.capacity i =
      (bucket.map fun entry ↦ keyClass entry.key).toFinset := by
    ext class'
    induction class' using Quotient.inductionOn with
    | h key =>
      rw [List.mem_toFinset, List.mem_map]
      exact mem_sharing h hbucket key
  rw [hclasses, List.toFinset_card_of_nodup hnodup, List.length_map]

/-- What the statistic of a table says about the map that it represents and about lookups. -/
structure Describes (map : Reference K V) (s : Table K V) (statistic : Float × ℕ) : Prop where
  load : statistic.1 = quotient map.keys.card s.capacity
  longest : IsGreatest {count | ∃ i < s.capacity, count = (sharing map s.capacity i).card}
    statistic.2
  average : map.keys.card ≤ s.capacity * statistic.2
  lookups : ∀ key, s.comparisons key ≤ statistic.2
  attained : map ≠ ∅ → ∃ key, keyClass key ∈ map ∧ s.comparisons key = statistic.2

theorem Stores.longest (h : Stores map s) :
    IsGreatest {count | ∃ i < s.capacity, count = (sharing map s.capacity i).card}
      s.getStatistic.2 := by
  have hinv := h.invariant
  obtain ⟨⟨bucket, hmem, hlength⟩, hle⟩ := getStatistic_snd hinv.framed
  rw [← h.contents]
  constructor
  · obtain ⟨i, hi⟩ := List.mem_iff_getElem?.mp hmem
    refine ⟨i, ?_, hlength.symm.trans (card_sharing hinv hi).symm⟩
    rw [← hinv.length]
    exact (List.getElem?_eq_some_iff.mp hi).1
  · rintro count ⟨i, hi, rfl⟩
    rw [← hinv.length] at hi
    rw [card_sharing hinv (List.getElem?_eq_getElem hi)]
    exact hle _ (List.getElem_mem hi)

/-- Some key that is stored takes as many comparisons as there are keys in the longest bucket. -/
theorem Stores.attained (h : Stores map s) (hne : map ≠ ∅) :
    ∃ key, keyClass key ∈ map ∧ s.comparisons key = s.getStatistic.2 := by
  have hinv := h.invariant
  obtain ⟨⟨bucket, hmem, hlength⟩, -⟩ := getStatistic_snd hinv.framed
  have hbucket : bucket ≠ [] := by
    rintro rfl
    have hsize := size_le_longest hinv.framed
    rw [← hlength, List.length_nil, Nat.mul_zero, h.represents.size, Nat.le_zero,
      Finset.card_eq_zero, keys_eq_empty_iff] at hsize
    exact hne hsize
  obtain ⟨front, entry, rfl⟩ := (List.eq_nil_or_concat' bucket).resolve_left hbucket
  obtain ⟨i, hi⟩ := List.mem_iff_getElem?.mp hmem
  refine ⟨entry.key, ?_, (comparisons_last hinv hi).trans hlength⟩
  have hshares := (mem_sharing hinv hi entry.key).mpr
    ⟨entry, List.mem_append_right _ (List.mem_singleton_self entry), rfl⟩
  rw [h.contents] at hshares
  exact Finmap.mem_keys.mp (Finset.mem_filter.mp hshares).1

theorem Stores.describes (h : Stores map s) : Describes map s s.getStatistic := by
  have hframed := h.invariant.framed
  have hsize := h.represents.size
  refine ⟨?_, h.longest, ?_, comparisons_le hframed, h.attained⟩
  · rw [getStatistic_fst hframed, hsize]
  · rw [← hsize]
    exact size_le_longest hframed

end Exact

end StudStuff.HashTable
