import StudStuff.Lib.Execution
import StudStuff.Lib.KeyedList
import StudStuff.HashTable.Table

/-!
# The entries in the buckets

`Invariant` is the invariant of a table: an entry lies in the bucket of its hash, no two entries
of the table have equivalent keys, and the cached counts are right. `Framed` is the part of it that
does not depend on what `==` and the hash are. What a table stores is `Table.contents`, the entries
of all buckets. The member functions rearrange these entries, so that
their effects are stated up to permutation.
-/

set_option autoImplicit false
set_option relaxedAutoImplicit false

namespace StudStuff.HashTable

open Lib

variable {K V : Type}

/-! ### The invariant -/

section Contents

/-- The key and the value of an entry. -/
def Entry.pair (entry : Entry K V) : K × V := (entry.key, entry.value)

/-- The entries of all buckets. -/
def Table.contents (s : Table K V) : List (K × V) := s.table.flatten.map Entry.pair

/-- Every entry lies in the bucket of its hash. -/
def Placed [Hashable K] (capacity : ℕ) (table : List (Bucket K V)) : Prop :=
  ∀ index bucket, table[index]? = some bucket → ∀ entry ∈ bucket,
    hashFunction entry.key % capacity = index

/-- There are buckets, and the cached counts agree with them. -/
structure Framed (s : Table K V) : Prop where
  capacity : 0 < s.capacity
  length : s.table.length = s.capacity
  size : s.size = s.table.flatten.length

/-- The invariant of a table. -/
structure Invariant [BEq K] [Hashable K] (s : Table K V) : Prop where
  capacity : 0 < s.capacity
  length : s.table.length = s.capacity
  placed : Placed s.capacity s.table
  distinct : Distinct s.contents
  size : s.size = s.contents.length

theorem Invariant.framed [BEq K] [Hashable K] {s : Table K V} (h : Invariant s) : Framed s := by
  refine ⟨h.capacity, h.length, h.size.trans ?_⟩
  rw [Table.contents, List.length_map]

end Contents

/-! ### One bucket -/

section Bucket

variable {s : Table K V} {table : List (Bucket K V)} {index : ℕ} {bucket bucket' : Bucket K V}

/-- The entries of one bucket, and the others. -/
theorem flatten_perm (hbucket : table[index]? = some bucket) :
    ∃ rest, table.flatten.Perm (bucket ++ rest) ∧
      ∀ bucket', (table.set index bucket').flatten.Perm (bucket' ++ rest) := by
  obtain ⟨hlt, rfl⟩ := List.getElem?_eq_some_iff.mp hbucket
  have hset (bucket' : Bucket K V) : (table.set index bucket').flatten.Perm
      (bucket' ++ ((table.take index).flatten ++ (table.drop (index + 1)).flatten)) := by
    rw [List.set_eq_take_append_cons_drop, if_pos hlt, List.flatten_append, List.flatten_cons]
    exact List.perm_append_comm_assoc ..
  refine ⟨_, ?_, hset⟩
  have hperm := hset table[index]
  rwa [List.set_getElem_self] at hperm

variable [Hashable K]

/-- The other buckets are left alone. -/
theorem Placed.set {capacity : ℕ} (h : Placed capacity table)
    (hbucket : ∀ entry ∈ bucket, hashFunction entry.key % capacity = index) :
    Placed capacity (table.set index bucket) := by
  intro other bucket' hother entry hmem
  rw [List.getElem?_set] at hother
  split_ifs at hother with hsame hlt
  · cases hother
    exact hsame ▸ hbucket entry hmem
  · exact h other bucket' hother entry hmem

variable [BEq K]

/-- A bucket is replaced. -/
theorem Invariant.set (h : Invariant s) (size : ℕ)
    (hplaced : ∀ entry ∈ bucket, hashFunction entry.key % s.capacity = index)
    (hdistinct : Distinct ((s.table.set index bucket).flatten.map Entry.pair))
    (hsize : size = ((s.table.set index bucket).flatten.map Entry.pair).length) :
    Invariant { s with table := s.table.set index bucket, size := size } :=
  ⟨h.capacity, by rw [List.length_set, h.length], h.placed.set hplaced, hdistinct, hsize⟩

end Bucket

/-! ### Finding an entry -/

section Find

variable {s : Table K V} {key : K}

theorem modulo_apply {count : ℕ} (hcount : 0 < count) (value : ℕ) (s : Table K V) :
    modulo value count s = .ok (value % count) s := by
  rw [modulo, if_neg hcount.ne', pure_apply]

theorem bucketAt_apply {index : ℕ} {bucket : Bucket K V} (hbucket : s.table[index]? = some bucket) :
    bucketAt index s = .ok bucket s := by
  rw [bucketAt, hbucket]

theorem modifyBucket_apply {index : ℕ} {bucket : Bucket K V}
    (hbucket : s.table[index]? = some bucket) (change : Bucket K V → Bucket K V) :
    modifyBucket index change s =
      .ok () { s with table := s.table.set index (change bucket) } := by
  rw [modifyBucket, bind_ok (bucketAt_apply hbucket), modify_apply]

/-- The entries of a table are one of them and others, which stay when it is changed or erased. -/
theorem contents_found {index : ℕ} {front back : Bucket K V} {entry : Entry K V}
    (hbucket : s.table[index]? = some (front ++ entry :: back)) :
    ∃ rest, s.contents.Perm (entry.pair :: rest) ∧
      (∀ entry' : Entry K V, ((s.table.set index (front ++ entry' :: back)).flatten.map
        Entry.pair).Perm (entry'.pair :: rest)) ∧
      ((s.table.set index (front ++ back)).flatten.map Entry.pair).Perm rest := by
  obtain ⟨others, hflatten, hset⟩ := flatten_perm hbucket
  have hfront (entry' : Entry K V) : (front ++ entry' :: back ++ others).Perm
      (entry' :: (front ++ back ++ others)) := by
    rw [List.append_assoc, List.append_assoc, List.cons_append]
    exact List.perm_middle
  exact ⟨(front ++ back ++ others).map Entry.pair, (hflatten.trans (hfront entry)).map _,
    fun entry' ↦ ((hset _).trans (hfront entry')).map _, (hset _).map _⟩

variable [BEq K] [Hashable K]

/-- What `FindEntry` finds: an entry with an equivalent key in the bucket of the key, or the end of
this bucket, which then holds no such entry. -/
inductive Located (s : Table K V) (key : K) (bucket : Bucket K V) : Prop
  | found (front : Bucket K V) (entry : Entry K V) (back : Bucket K V)
      (hbucket : bucket = front ++ entry :: back) (hkey : (entry.key == key) = true)
      (hrun : findEntry key s = .ok (hashFunction key % s.capacity, front.length, true) s)
  | missing (hfresh : ∀ entry ∈ bucket, (entry.key == key) = false)
      (hrun : findEntry key s = .ok (hashFunction key % s.capacity, bucket.length, false) s)

/-- `FindEntry` looks for the key in the bucket of its hash. -/
theorem findEntry_apply (h : Framed s) (key : K) :
    ∃ bucket, s.table[hashFunction key % s.capacity]? = some bucket ∧
      findEntry key s = .ok (hashFunction key % s.capacity,
        bucket.findIdx (fun entry ↦ entry.key == key),
        bucket.findIdx (fun entry ↦ entry.key == key) != bucket.length) s := by
  have hlt : hashFunction key % s.capacity < s.table.length := by
    rw [h.length]
    exact Nat.mod_lt _ h.capacity
  have hbucket := List.getElem?_eq_getElem hlt
  have hindex : index key s = .ok (hashFunction key % s.capacity) s := by
    rw [index, bind_ok (get_apply s)]
    exact modulo_apply h.capacity _ s
  refine ⟨_, hbucket, ?_⟩
  rw [findEntry, bind_ok hindex, bind_ok (bucketAt_apply hbucket), pure_apply]

theorem findEntry_run (h : Framed s) (key : K) :
    ∃ bucket, s.table[hashFunction key % s.capacity]? = some bucket ∧ Located s key bucket := by
  obtain ⟨bucket, hbucket, hrun⟩ := findEntry_apply h key
  refine ⟨bucket, hbucket, ?_⟩
  by_cases hpresent : ∃ entry ∈ bucket, (entry.key == key) = true
  · have hiter := List.findIdx_lt_length.mpr hpresent
    have hlength := List.length_take_of_le hiter.le
    rw [bne_iff_ne.mpr hiter.ne, ← hlength] at hrun
    refine .found _ _ (bucket.drop (bucket.findIdx (fun entry ↦ entry.key == key) + 1)) ?_
      (List.findIdx_getElem (w := hiter)) hrun
    rw [← List.drop_eq_getElem_cons hiter, List.take_append_drop]
  · have hfresh : ∀ entry ∈ bucket, (entry.key == key) = false := fun entry hmem ↦
      Bool.eq_false_iff.mpr fun hkey ↦ hpresent ⟨entry, hmem, hkey⟩
    rw [List.findIdx_eq_length.mpr hfresh, bne_self_eq_false] at hrun
    exact .missing hfresh hrun

/-- When `FindEntry` finds no entry, no entry of the table has an equivalent key. -/
theorem contents_missing [EquivBEq K] [LawfulHashable K] (h : Invariant s) {bucket : Bucket K V}
    (hbucket : s.table[hashFunction key % s.capacity]? = some bucket)
    (hfresh : ∀ entry ∈ bucket, (entry.key == key) = false) :
    ∀ pair ∈ s.contents, (pair.1 == key) = false := by
  intro pair hpair
  obtain ⟨entry, hentry, rfl⟩ := List.mem_map.mp hpair
  obtain ⟨other, hother, hmem⟩ := List.mem_flatten.mp hentry
  obtain ⟨index, hlt, rfl⟩ := List.getElem_of_mem hother
  have hindex := h.placed index _ (List.getElem?_eq_getElem hlt) entry hmem
  apply Bool.eq_false_iff.mpr
  intro hkey
  have hhash : hashFunction entry.key = hashFunction key := by
    rw [hashFunction, hashFunction, LawfulHashable.hash_eq entry.key key hkey]
  rw [hhash] at hindex
  rw [hindex, List.getElem?_eq_getElem hlt, Option.some.injEq] at hbucket
  exact absurd hkey (Bool.eq_false_iff.mp (hfresh entry (hbucket ▸ hmem)))

end Find

end StudStuff.HashTable
