import StudStuff.HashTable.Indexing

/-!
# Mutations that run out of memory

`Rehash` builds the new table on the side, so nothing has changed when one of its allocations fails
(`rehash_throwsCleanly`). `Insert` links and counts the new entry before it rehashes, so the entry
stays when that rehash fails, although the call throws: an insertion throws cleanly unless it fails
there (`mutation_throwsCleanly_iff`).
-/

set_option autoImplicit false
set_option relaxedAutoImplicit false

namespace StudStuff.HashTable

open Lib

variable {K V : Type}

/-! ### Reachable tables -/

/-- The tables that a program reaches. Which of the coming allocations succeed may change at any
time, and the program goes on after an operation that has run out of memory. -/
inductive Reachable [BEq K] [Hashable K] : Table K V → Prop
  | start (cap : ℕ) : Reachable (construct cap)
  | memory {s : Table K V} (h : Reachable s) (outcomes : List Bool) :
      Reachable { s with outcomes := outcomes }
  | returns {s s' : Table K V} {op : Op K V} {response : Response V} (h : Reachable s)
      (hrun : exec op s = .ok response s') : Reachable s'
  | fails {s s' : Table K V} {op : Op K V} (h : Reachable s)
      (hrun : exec op s = .error .badAlloc s') : Reachable s'

section Reachable

variable [BEq K] [Hashable K] {s : Table K V}

/-- On a table without buckets only `Rehash` gets anywhere. -/
theorem exec_zero {op : Op K V} {outcomes : List Bool} {key : K} (hop : op.key? = some key) :
    exec op (constructIn 0 outcomes) = .error .divisionByZero (constructIn 0 outcomes) := by
  have hfind (key : K) : findEntry key (constructIn 0 outcomes : Table K V) =
      .error .divisionByZero (constructIn 0 outcomes) := findEntry_zero rfl key
  cases op with
  | insert key value => exact bind_error (bind_error (hfind key))
  | find key => exact bind_error (bind_error (hfind key))
  | remove key => exact bind_error (bind_error (hfind key))
  | rehash count => cases hop

/-- The counts of a reachable table are right, or it has not got its buckets yet. -/
theorem Reachable.framed_or (h : Reachable s) :
    Framed s ∨ ∃ outcomes, s = constructIn 0 outcomes := by
  have hstep {s s' : Table K V} {op : Op K V}
      (ih : Framed s ∨ ∃ outcomes, s = constructIn 0 outcomes)
      (hrun : (∃ response, exec op s = .ok response s') ∨ exec op s = .error .badAlloc s') :
      Framed s' ∨ ∃ outcomes, s' = constructIn 0 outcomes := by
    rcases ih with hframed | ⟨outcomes, rfl⟩
    · rcases hrun with ⟨response, hrun⟩ | hrun
      · exact Or.inl ((exec_keeps hframed op).ok hrun)
      · exact Or.inl ((exec_keeps hframed op).error hrun).2
    cases hop : op.key? with
    | some key =>
      rw [exec_zero hop] at hrun
      rcases hrun with ⟨response, hrun⟩ | hrun <;> cases hrun
    | none =>
      obtain ⟨count, rfl⟩ := Op.exists_rehash hop
      by_cases houtcomes : outcomes.head? = some false
      · obtain ⟨rest, rfl⟩ := List.head?_eq_some_iff.mp houtcomes
        rw [rehash_zero_fails] at hrun
        rcases hrun with ⟨response, hrun⟩ | hrun <;> cases hrun
        exact Or.inr ⟨rest, rfl⟩
      · obtain ⟨s'', hrun', hframed⟩ := rehash_zero_returns (K := K) (V := V) houtcomes count
        rw [hrun'] at hrun
        rcases hrun with ⟨response, hrun⟩ | hrun <;> cases hrun
        exact Or.inl hframed
  induction h with
  | start cap =>
    by_cases hcap : 1 ≤ cap
    · exact Or.inl (framed_constructIn hcap [])
    · obtain rfl : cap = 0 := by omega
      exact Or.inr ⟨[], rfl⟩
  | memory h outcomes ih =>
    rcases ih with hframed | ⟨outcomes', rfl⟩
    · exact Or.inl ⟨hframed.capacity, hframed.length, hframed.size⟩
    · exact Or.inr ⟨outcomes, rfl⟩
  | returns h hrun ih => exact hstep ih (Or.inl ⟨_, hrun⟩)
  | fails h hrun ih => exact hstep ih (Or.inr hrun)

theorem Reachable.framed (h : Reachable s) (hcapacity : 1 ≤ s.capacity) : Framed s := by
  rcases h.framed_or with hframed | ⟨outcomes, rfl⟩
  · exact hframed
  · exact absurd hcapacity (Nat.not_succ_le_zero 0)

end Reachable

/-! ### What `Find` answers -/

section Find

variable [BEq K] [Hashable K] {s : Table K V}

/-- The value of the first entry with an equivalent key in the bucket of a key. -/
def Table.lookup (s : Table K V) (key : K) : Option V := do
  let bucket ← s.table[hashFunction key % s.capacity]?
  bucket[bucket.findIdx fun entry ↦ entry.key == key]?.map Entry.value

/-- `Find` looks into the bucket of the key. -/
theorem find_lookup (h : Framed s) (key : K) : find key s = .ok (s.lookup key) s := by
  obtain ⟨bucket, hbucket, hfind⟩ := findEntry_apply h key
  rw [Table.lookup, hbucket]
  refine (bind_ok hfind).trans ?_
  by_cases hend : bucket.findIdx (fun entry ↦ entry.key == key) = bucket.length
  · simp [hend]
  · dsimp only
    rw [if_pos (bne_iff_ne.mpr hend), bind_ok (bucketAt_apply hbucket), pure_apply]
    rfl

end Find

/-! ### Clean failures -/

section Rehashing

variable [Hashable K] {s : Table K V}

/-- The coming insertion of a new key fails in its rehash: the node is allocated, the table is too
full with the new entry, and the allocation of the buckets or of one of the copies fails. -/
def Table.FailsRehashing (s : Table K V) : Prop :=
  s.Provides 1 ∧ 3 * s.capacity < 4 * (s.size + 1) ∧ ¬(s.spend 1).Provides (s.size + 2)

/-- An insertion that fails in its rehash has counted the entry. -/
theorem insertNew_stays (h : Framed s) {index : ℕ} {bucket : Bucket K V}
    (hbucket : s.table[index]? = some bucket) (hrehash : s.FailsRehashing) (key : K) (value : V) :
    ∃ s', insertNew index key value s = .error .badAlloc s' ∧ s'.size = s.size + 1 := by
  obtain ⟨hnode, hload, hfails⟩ := hrehash
  rw [insertNew_linked hnode hbucket key value, if_pos hload]
  obtain ⟨spent, hrun⟩ := rehash_fails
    (mt (linked_provides_iff h hbucket ⟨key, value⟩).mp hfails) (s.capacity * 2)
  exact ⟨_, hrun, rfl⟩

end Rehashing

section Clean

variable [BEq K] [Hashable K]

/-- `Find` answers the same for every key, and the counts are the same. -/
structure Unchanged (s s' : Table K V) : Prop where
  find : ∀ key, ∃ answer, find key s = .ok answer s ∧ HashTable.find key s' = .ok answer s'
  size : s'.size = s.size
  capacity : s'.capacity = s.capacity

/-- When an operation throws, memory has run out and nothing has changed. -/
def ThrowsCleanly (program : TableM K V Unit) (s : Table K V) : Prop :=
  ∀ stop s', program s = .error stop s' → stop = .badAlloc ∧ Unchanged s s'

variable {s : Table K V}

/-- Allocations alone change nothing. -/
theorem unchanged_spend (h : Framed s) (count : ℕ) : Unchanged s (s.spend count) :=
  ⟨fun key ↦ ⟨s.lookup key, find_lookup h key, find_lookup (h.spend count) key⟩, rfl, rfl⟩

theorem rehash_throwsCleanly (h : Framed s) (count : ℕ) : ThrowsCleanly (rehash count) s := by
  intro stop s' hrun
  by_cases hprovides : s.Provides (1 + s.table.flatten.length)
  · obtain ⟨newTable, -, hrun'⟩ := rehash_returns hprovides count
    cases hrun'.symm.trans hrun
  · obtain ⟨spent, hrun'⟩ := rehash_fails hprovides count
    cases hrun'.symm.trans hrun
    exact ⟨rfl, unchanged_spend h spent⟩

/-- `Insert` of a key that is not stored adds an entry to the bucket of the key. -/
theorem insert_absent (h : Framed s) {key : K} (habsent : find key s = .ok none s) (value : V) :
    ∃ bucket, s.table[hashFunction key % s.capacity]? = some bucket ∧
      insert key value s = insertNew (hashFunction key % s.capacity) key value s := by
  obtain ⟨bucket, hbucket, hlocated⟩ := findEntry_run h key
  cases hlocated with
  | found front entry back hsplit hkey hrun =>
    subst hsplit
    rw [find, bind_ok hrun] at habsent
    have hvalue := (bind_ok (bucketAt_apply hbucket)).symm.trans habsent
    rw [pure_apply] at hvalue
    simp at hvalue
  | missing hfresh hrun => exact ⟨bucket, hbucket, bind_ok hrun⟩

/-- An insertion that does not fail in its rehash throws cleanly. -/
theorem insertNew_throwsCleanly (h : Framed s) {index : ℕ} {bucket : Bucket K V}
    (hbucket : s.table[index]? = some bucket) (hrehash : ¬s.FailsRehashing) (key : K)
    (value : V) : ThrowsCleanly (insertNew index key value) s := by
  intro stop s' hrun
  by_cases hnode : s.Provides 1
  · rw [insertNew_linked hnode hbucket key value] at hrun
    split_ifs at hrun with hload
    · have hprovides := (linked_provides_iff h hbucket ⟨key, value⟩).mpr
        (by_contra fun hfails ↦ hrehash ⟨hnode, hload, hfails⟩)
      obtain ⟨newTable, -, hrun'⟩ := rehash_returns hprovides (s.capacity * 2)
      cases hrun'.symm.trans hrun
    · cases hrun
  · obtain ⟨spent, hrun'⟩ := insertNew_fails hnode index key value
    cases hrun'.symm.trans hrun
    exact ⟨rfl, unchanged_spend h spent⟩

/-- A `Rehash` that throws has changed nothing, and so has the insertion of a new key, unless it is
the rehash after the insertion that fails. -/
theorem mutation_throwsCleanly_iff (h : Reachable s) (hcapacity : 1 ≤ s.capacity) :
    (∀ count, ThrowsCleanly (rehash count) s) ∧
    ∀ (key : K) (value : V), find key s = .ok none s →
      (ThrowsCleanly (insert key value) s ↔ ¬s.FailsRehashing) := by
  have hframed := h.framed hcapacity
  refine ⟨rehash_throwsCleanly hframed, ?_⟩
  intro key value habsent
  obtain ⟨bucket, hbucket, hinsert⟩ := insert_absent hframed habsent value
  constructor
  · intro hclean hrehash
    obtain ⟨s', hrun, hsize⟩ := insertNew_stays hframed hbucket hrehash key value
    have hsame := (hclean _ _ (hinsert.trans hrun)).2.size
    omega
  · intro hrehash stop s' hrun
    exact insertNew_throwsCleanly hframed hbucket hrehash key value stop s' (hinsert ▸ hrun)

end Clean

/-- A table of four buckets with three entries, of which two are in one bucket. One more entry is
too many for it. -/
def threeEntries (outcomes : List Bool) : Table ℕ Char where
  table := [[], [⟨1, 'a'⟩, ⟨5, 'b'⟩], [⟨2, 'c'⟩], []]
  size := 3
  capacity := 4
  outcomes := outcomes

theorem reachable_threeEntries (outcomes : List Bool) : Reachable (threeEntries outcomes) := by
  have h₀ : Reachable (construct 4 : Table ℕ Char) := .start 4
  have h₁ := h₀.returns (show exec (.insert 1 'a') _ = .ok _ _ from rfl)
  have h₂ := h₁.returns (show exec (.insert 5 'b') _ = .ok _ _ from rfl)
  have h₃ := h₂.returns (show exec (.insert 2 'c') _ = .ok _ _ from rfl)
  exact h₃.memory outcomes

/-- That table, when the copy of its second entry cannot be allocated, in a rehash by itself and in
the rehash of an insertion. -/
theorem mutation_throwsCleanly_iff_entries :
    ThrowsCleanly (rehash 9) (threeEntries [true, true, false]) ∧
      (ThrowsCleanly (insert 3 'd') (threeEntries [true, true, true, false]) ↔
        ¬(threeEntries [true, true, true, false]).FailsRehashing) := by
  have hrehash := mutation_throwsCleanly_iff (reachable_threeEntries [true, true, false])
    (show 1 ≤ 4 by decide)
  have hinsert := mutation_throwsCleanly_iff (reachable_threeEntries [true, true, true, false])
    (show 1 ≤ 4 by decide)
  exact ⟨hrehash.1 9, hinsert.2 3 'd' rfl⟩

/-- An insertion into that table, when the node of the new entry, the new buckets and one copy can
be allocated and the next copy cannot: the call throws, and the entry is there. -/
theorem insert_breaks_clean_failure :
    Reachable (threeEntries [true, true, true, false]) ∧
      find 3 (threeEntries [true, true, true, false]) =
        .ok none (threeEntries [true, true, true, false]) ∧
      ¬ThrowsCleanly (insert 3 'd') (threeEntries [true, true, true, false]) := by
  refine ⟨reachable_threeEntries _, rfl, ?_⟩
  intro hclean
  have hrun : insert 3 'd' (threeEntries [true, true, true, false]) =
      .error .badAlloc
        ⟨[[], [⟨1, 'a'⟩, ⟨5, 'b'⟩], [⟨2, 'c'⟩], [⟨3, 'd'⟩]], 4, 4, []⟩ := rfl
  cases (hclean _ _ hrun).2.size

end StudStuff.HashTable
