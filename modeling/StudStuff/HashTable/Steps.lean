import StudStuff.HashTable.Rehash

/-!
# Single operations when memory may fail

What one operation does to a table whose counts are right (`Framed`), whatever `==` and the hash
are. `FindEntry` changes nothing. A new entry is linked and counted once its node is allocated, and
then the table may rehash (`insertNew_linked`). An operation returns a table whose counts are right
or runs out of memory and leaves one (`exec_framed`).
-/

set_option autoImplicit false
set_option relaxedAutoImplicit false

namespace StudStuff.HashTable

open Lib

variable {K V : Type}

/-! ### Framed tables -/

section Framed

variable {s : Table K V} {index : ℕ} {bucket bucket' : Bucket K V}

/-- The number of entries when a bucket is replaced. -/
theorem length_flatten_set (hbucket : s.table[index]? = some bucket) (bucket' : Bucket K V) :
    (s.table.set index bucket').flatten.length + bucket.length =
      s.table.flatten.length + bucket'.length := by
  obtain ⟨rest, hflatten, hset⟩ := flatten_perm hbucket
  rw [hflatten.length_eq, (hset bucket').length_eq, List.length_append, List.length_append]
  omega

theorem Framed.spend (h : Framed s) (count : ℕ) : Framed (s.spend count) :=
  ⟨h.capacity, h.length, h.size⟩

/-- A bucket is replaced and the count is adjusted. -/
theorem Framed.set (h : Framed s) {size : ℕ} (outcomes : List Bool)
    (hbucket : s.table[index]? = some bucket)
    (hsize : size + bucket.length = s.size + bucket'.length) :
    Framed
      { s with table := s.table.set index bucket', size := size, outcomes := outcomes } := by
  have hlength := length_flatten_set hbucket bucket'
  have hcount := h.size
  refine ⟨h.capacity, ?_, ?_⟩
  · exact List.length_set.trans h.length
  · show size = (s.table.set index bucket').flatten.length
    omega

variable [Hashable K]

/-- `Rehash` leaves a table whose counts are right. -/
theorem rehash_framed (hsize : s.size = s.table.flatten.length)
    (hprovides : s.Provides (1 + s.table.flatten.length)) (count : ℕ) :
    ∃ s', rehash count s = .ok () s' ∧ Framed s' ∧ s'.size = s.size ∧
      s'.capacity = rehashedCapacity s count := by
  obtain ⟨newTable, hmoved, hrun⟩ := rehash_returns hprovides count
  refine ⟨_, hrun, ⟨rehashedCapacity_pos s count, hmoved.length, ?_⟩, rfl, rfl⟩
  rw [hmoved.perm.length_eq]
  exact hsize

end Framed

/-! ### Adding an entry -/

/-- The table with a new entry at the end of a bucket, which took one allocation. -/
def Table.linked (s : Table K V) (index : ℕ) (bucket : Bucket K V) (entry : Entry K V) :
    Table K V :=
  { s.spend 1 with table := s.table.set index (bucket ++ [entry]), size := s.size + 1 }

section Linked

variable {s : Table K V} {index : ℕ} {bucket : Bucket K V}

theorem Framed.linked (h : Framed s) (hbucket : s.table[index]? = some bucket)
    (entry : Entry K V) : Framed (s.linked index bucket entry) := by
  apply h.set _ hbucket
  rw [List.length_append, List.length_singleton]
  omega

/-- A table with a new entry has one entry more. -/
theorem length_linked (hbucket : s.table[index]? = some bucket) (entry : Entry K V) :
    (s.linked index bucket entry).table.flatten.length = s.table.flatten.length + 1 := by
  have hlength := length_flatten_set hbucket (bucket ++ [entry])
  rw [List.length_append, List.length_singleton] at hlength
  show (s.table.set index (bucket ++ [entry])).flatten.length = _
  omega

/-- The rehash after a new entry allocates the buckets and a copy of each entry. -/
theorem linked_provides_iff (h : Framed s) (hbucket : s.table[index]? = some bucket)
    (entry : Entry K V) :
    (s.linked index bucket entry).Provides
        (1 + (s.linked index bucket entry).table.flatten.length) ↔
      (s.spend 1).Provides (s.size + 2) := by
  rw [length_linked hbucket, ← h.size, show 1 + (s.size + 1) = s.size + 2 by omega]
  rfl

variable [Hashable K]

/-- The node of the new entry cannot be allocated. -/
theorem insertNew_fails (h : ¬s.Provides 1) (index : ℕ) (key : K) (value : V) :
    ∃ spent, insertNew index key value s = .error .badAlloc (s.spend spent) := by
  obtain ⟨spent, hrun⟩ := Allocates.allocate.error h
  exact ⟨spent, bind_error hrun⟩

/-- The new entry is linked and counted, and then the table rehashes if it is too full. -/
theorem insertNew_linked (h : s.Provides 1) (hbucket : s.table[index]? = some bucket) (key : K)
    (value : V) :
    insertNew index key value s =
      (if 3 * s.capacity < 4 * (s.size + 1) then rehash (s.capacity * 2) else return () :
        TableM K V Unit) (s.linked index bucket ⟨key, value⟩) := by
  obtain ⟨_, hrun, -⟩ := Allocates.allocate.ok h
  unfold insertNew
  rw [bind_ok hrun, bind_ok (modifyBucket_apply (s := s.spend 1) hbucket _),
    bind_ok (modify_apply _ _), bind_ok (get_apply _)]
  rfl

end Linked

/-! ### One operation -/

section Step

variable [Hashable K] {s : Table K V}

/-- What every operation keeps, whether it returns or runs out of memory. -/
abbrev KeepsFramed {α : Type} (program : TableM K V α) (s : Table K V) : Prop :=
  Meets program (fun _ s' ↦ Framed s') (fun stop s' ↦ stop = .badAlloc ∧ Framed s') s

theorem rehash_keeps (h : Framed s) (count : ℕ) : KeepsFramed (rehash count) s := by
  by_cases hprovides : s.Provides (1 + s.table.flatten.length)
  · obtain ⟨s', hrun, hframed, -⟩ := rehash_framed h.size hprovides count
    exact .of_ok hrun hframed
  · obtain ⟨spent, hrun⟩ := rehash_fails hprovides count
    exact .of_error hrun ⟨rfl, h.spend spent⟩

theorem insertNew_keeps (h : Framed s) {index : ℕ} {bucket : Bucket K V}
    (hbucket : s.table[index]? = some bucket) (key : K) (value : V) :
    KeepsFramed (insertNew index key value) s := by
  by_cases hprovides : s.Provides 1
  · apply Meets.of_step (insertNew_linked hprovides hbucket key value)
    have hlinked := h.linked hbucket ⟨key, value⟩
    split_ifs with hload
    · exact rehash_keeps hlinked _
    · exact .pure hlinked
  · obtain ⟨spent, hrun⟩ := insertNew_fails hprovides index key value
    exact .of_error hrun ⟨rfl, h.spend spent⟩

variable [BEq K]

/-- `FindEntry` of a table without buckets. -/
theorem findEntry_zero (hcapacity : s.capacity = 0) (key : K) :
    findEntry key s = .error .divisionByZero s := by
  have hindex : index key s = .error .divisionByZero s := by
    rw [index, bind_ok (get_apply s), modulo, if_pos hcapacity]
    rfl
  exact bind_error hindex

theorem insert_keeps (h : Framed s) (key : K) (value : V) :
    KeepsFramed (insert key value) s := by
  obtain ⟨bucket, hbucket, hlocated⟩ := findEntry_run h key
  cases hlocated with
  | found front entry back hsplit hkey hrun =>
    refine .of_ok ((bind_ok hrun).trans (modifyBucket_apply hbucket _)) ?_
    apply h.set s.outcomes hbucket
    rw [List.length_modify]
  | missing hfresh hrun => exact .of_step (bind_ok hrun) (insertNew_keeps h hbucket key value)

theorem find_keeps (h : Framed s) (key : K) : KeepsFramed (find key) s := by
  obtain ⟨bucket, hbucket, hlocated⟩ := findEntry_run h key
  cases hlocated with
  | found front entry back hsplit hkey hrun =>
    exact .of_ok ((bind_ok hrun).trans (bind_ok (bucketAt_apply hbucket))) h
  | missing hfresh hrun => exact .of_ok (bind_ok hrun) h

theorem remove_keeps (h : Framed s) (key : K) : KeepsFramed (remove key) s := by
  obtain ⟨bucket, hbucket, hlocated⟩ := findEntry_run h key
  cases hlocated with
  | found front entry back hsplit hkey hrun =>
    have hlength : front.length < bucket.length := by simp [hsplit]
    have hcount := length_flatten_set hbucket []
    rw [List.length_nil] at hcount
    have hsize := h.size
    refine .of_ok ((bind_ok hrun).trans (bind_ok (modifyBucket_apply hbucket _))) ?_
    apply h.set s.outcomes hbucket
    rw [List.length_eraseIdx_of_lt hlength]
    show s.size - 1 + bucket.length = s.size + (bucket.length - 1)
    omega
  | missing hfresh hrun => exact .of_ok (bind_ok hrun) h

/-- One operation. -/
theorem exec_keeps (h : Framed s) (op : Op K V) : KeepsFramed (exec op) s := by
  cases op with
  | insert key value => exact (insert_keeps h key value).bind fun _ _ hframed ↦ .pure hframed
  | find key => exact (find_keeps h key).bind fun _ _ hframed ↦ .pure hframed
  | remove key => exact (remove_keeps h key).bind fun _ _ hframed ↦ .pure hframed
  | rehash count => exact (rehash_keeps h count).bind fun _ _ hframed ↦ .pure hframed

end Step

end StudStuff.HashTable
