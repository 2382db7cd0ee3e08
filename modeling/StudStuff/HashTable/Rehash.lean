import StudStuff.HashTable.Allocation
import StudStuff.HashTable.Buckets

/-!
# Rehashing

`Rehash` copies every entry into the bucket of a table with another number of buckets. Moving the
entries one after another keeps the new table well formed, and in the end it holds what the old one
held. It allocates once for the buckets and once for each entry (`rehash_allocates`), and the table
is replaced only when all of this has succeeded. `rehash_run` is about a memory that never fails.
-/

set_option autoImplicit false
set_option relaxedAutoImplicit false

namespace StudStuff.HashTable

open Lib

variable {K V : Type}

section Move

variable {s : Table K V} {newTable : List (Bucket K V)} {newCapacity : ℕ}

theorem allocate_apply (hmemory : s.outcomes = []) : allocate s = .ok () s := by
  rw [allocate, hmemory]

/-- A new entry takes one allocation. -/
theorem pushBack_allocates {index : ℕ} {bucket : Bucket K V}
    (hbucket : newTable[index]? = some bucket) (entry : Entry K V) :
    Allocates 1 (pushBack newTable index entry)
      (· = newTable.set index (bucket ++ [entry])) s := by
  have hpush : Allocates (1 + 0)
      (do
        allocate
        return newTable.set index (bucket ++ [entry]))
      (· = newTable.set index (bucket ++ [entry])) s :=
    Allocates.allocate.bind fun _ _ ↦ .pure rfl
  rw [pushBack, hbucket]
  exact hpush

variable [Hashable K]

/-- The part of a table that was moved. -/
structure Moved (newCapacity : ℕ) (newTable : List (Bucket K V)) (moved : Bucket K V) : Prop where
  length : newTable.length = newCapacity
  placed : Placed newCapacity newTable
  perm : newTable.flatten.Perm moved

theorem moved_replicate (newCapacity : ℕ) :
    Moved newCapacity (List.replicate newCapacity ([] : Bucket K V)) [] := by
  refine ⟨List.length_replicate, fun index bucket hbucket entry hmem ↦ ?_, ?_⟩
  · rw [List.getElem?_replicate] at hbucket
    split_ifs at hbucket
    cases hbucket
    cases hmem
  · rw [List.flatten_replicate_nil]

/-- Moving one entry. -/
theorem Moved.pushBack {moved : Bucket K V} (h : Moved newCapacity newTable moved)
    (hcapacity : 0 < newCapacity) (entry : Entry K V) :
    Allocates 1 (pushBack newTable (hashFunction entry.key % newCapacity) entry)
      (Moved newCapacity · (moved ++ [entry])) s := by
  have hlt : hashFunction entry.key % newCapacity < newTable.length := by
    rw [h.length]
    exact Nat.mod_lt _ hcapacity
  have hbucket := List.getElem?_eq_getElem hlt
  refine (pushBack_allocates hbucket entry).mono ?_
  rintro _ rfl
  refine ⟨?_, h.placed.set fun entry' hmem ↦ ?_, ?_⟩
  · rw [List.length_set, h.length]
  · rcases List.mem_append.mp hmem with hold | hnew
    · exact h.placed _ _ hbucket entry' hold
    · rw [List.mem_singleton.mp hnew]
  · obtain ⟨rest, hflatten, hset⟩ := flatten_perm hbucket
    refine (hset _).trans ?_
    rw [List.append_assoc]
    refine (List.perm_append_comm.append_left _).trans ?_
    rw [← List.append_assoc]
    exact (hflatten.symm.trans h.perm).append_right _

/-- Moving the entries of a bucket. -/
theorem moveBucket_allocates {moved : Bucket K V} (hcapacity : 0 < newCapacity)
    (entries : Bucket K V) (h : Moved newCapacity newTable moved) :
    Allocates entries.length (moveBucket newCapacity entries newTable)
      (Moved newCapacity · (moved ++ entries)) s := by
  induction entries generalizing newTable moved s with
  | nil => exact .pure (by rwa [List.append_nil])
  | cons entry entries ih =>
    rw [List.length_cons, Nat.add_comm]
    apply Allocates.of_eq (bind_ok (modulo_apply hcapacity _ s))
    apply (h.pushBack hcapacity entry).bind
    intro newTable' hmoved
    have hrest := ih (s := s.spend 1) hmoved
    rwa [List.append_assoc] at hrest

/-- Moving the entries of all buckets. -/
theorem moveBuckets_allocates {moved : Bucket K V} (hcapacity : 0 < newCapacity)
    (buckets : List (Bucket K V)) (h : Moved newCapacity newTable moved) :
    Allocates buckets.flatten.length (moveBuckets newCapacity buckets newTable)
      (Moved newCapacity · (moved ++ buckets.flatten)) s := by
  induction buckets generalizing newTable moved s with
  | nil => exact .pure (by rwa [List.flatten_nil, List.append_nil])
  | cons bucket buckets ih =>
    rw [List.flatten_cons, List.length_append]
    apply (moveBucket_allocates hcapacity bucket h).bind
    intro newTable' hmoved
    have hrest := ih (s := s.spend bucket.length) hmoved
    rwa [List.append_assoc] at hrest

end Move

section Rehash

/-- A table has room for one bucket at least. -/
theorem minBuckets_pos (size : ℕ) : 0 < minBuckets size := by
  rw [minBuckets]
  omega

/-- The number of buckets after `Rehash`. -/
def rehashedCapacity (s : Table K V) (count : ℕ) : ℕ := max count (minBuckets s.size)

theorem rehashedCapacity_pos (s : Table K V) (count : ℕ) : 0 < rehashedCapacity s count :=
  Nat.lt_of_lt_of_le (minBuckets_pos s.size) (Nat.le_max_right ..)

variable [Hashable K] {s : Table K V}

/-- The part of `Rehash` that allocates: the buckets, and a copy of each entry. -/
theorem rehash_allocates (s : Table K V) (count : ℕ) :
    Allocates (1 + s.table.flatten.length)
      (do
        allocate
        moveBuckets (rehashedCapacity s count) s.table
          (List.replicate (rehashedCapacity s count) []))
      (Moved (rehashedCapacity s count) · s.table.flatten) s := by
  apply Allocates.allocate.bind
  intro _ _
  exact moveBuckets_allocates (rehashedCapacity_pos s count) s.table (moved_replicate _)

/-- `Rehash` replaces the table after all allocations. -/
theorem rehash_eq (s : Table K V) (count : ℕ) :
    rehash count s = ((do
        allocate
        moveBuckets (rehashedCapacity s count) s.table
          (List.replicate (rehashedCapacity s count) [])) >>= fun newTable ↦
      modify fun s' ↦ { s' with
        table := newTable
        capacity := rehashedCapacity s count } : TableM K V Unit) s := by
  rw [bind_assoc]
  exact bind_ok (get_apply s)

/-- `Rehash` when all allocations succeed. -/
theorem rehash_returns (h : s.Provides (1 + s.table.flatten.length)) (count : ℕ) :
    ∃ newTable, Moved (rehashedCapacity s count) newTable s.table.flatten ∧
      rehash count s = .ok () { s.spend (1 + s.table.flatten.length) with
        table := newTable
        capacity := rehashedCapacity s count } := by
  obtain ⟨newTable, hrun, hmoved⟩ := (rehash_allocates s count).ok h
  refine ⟨newTable, hmoved, ?_⟩
  rw [rehash_eq, bind_ok hrun, modify_apply]

/-- `Rehash` when one of them fails. -/
theorem rehash_fails (h : ¬s.Provides (1 + s.table.flatten.length)) (count : ℕ) :
    ∃ spent, rehash count s = .error .badAlloc (s.spend spent) := by
  obtain ⟨spent, hrun⟩ := (rehash_allocates s count).error h
  refine ⟨spent, ?_⟩
  rw [rehash_eq, bind_error hrun]

/-- `Rehash` keeps the invariant and what the table stores. -/
theorem rehash_run [BEq K] [EquivBEq K] (h : Invariant s) (hmemory : s.outcomes = []) (count : ℕ) :
    ∃ s', rehash count s = .ok () s' ∧ Invariant s' ∧ s'.contents.Perm s.contents ∧
      s'.outcomes = [] := by
  obtain ⟨newTable, hmoved, hrun⟩ := rehash_returns (s.provides_of_memory hmemory _) count
  rw [s.spend_of_memory hmemory] at hrun
  have hperm : (newTable.flatten.map Entry.pair).Perm s.contents := hmoved.perm.map Entry.pair
  refine ⟨_, hrun, ⟨rehashedCapacity_pos s count, hmoved.length, hmoved.placed,
    h.distinct.perm hperm.symm, ?_⟩, hperm, hmemory⟩
  exact h.size.trans hperm.symm.length_eq

end Rehash

end StudStuff.HashTable
