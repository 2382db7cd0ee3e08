import StudStuff.HashTable.Indexing

/-!
# The load factor

`min_buckets` is the truncated quotient of the number of entries plus one by the load factor. That
is still enough buckets for the entries that are there (`four_mul_size_le`), so a table is within
the load factor after every `Rehash`, and an `Insert` that has rehashed it need not do so again.
-/

set_option autoImplicit false
set_option relaxedAutoImplicit false

namespace StudStuff.HashTable

open Lib

variable {K V : Type}

/-- The number of entries is at most three quarters of the number of buckets. -/
def Table.Loaded (s : Table K V) : Prop := 4 * s.size ≤ 3 * s.capacity

/-- The truncated quotient is large enough. -/
theorem four_mul_size_le (size count : ℕ) : 4 * size ≤ 3 * max count (minBuckets size) := by
  have hmin : minBuckets size ≤ max count (minBuckets size) := Nat.le_max_right ..
  rw [minBuckets] at hmin ⊢
  omega

/-! ### Single operations -/

section Counts

/-- The cached counts of a table. -/
def Table.counts (s : Table K V) : ℕ × ℕ := (s.size, s.capacity)

theorem Table.Loaded.congr {s s' : Table K V} (h : s.Loaded) (hcounts : s'.counts = s.counts) :
    s'.Loaded := by
  obtain ⟨hsize, hcapacity⟩ := Prod.mk.inj hcounts
  rw [Loaded, hsize, hcapacity]
  exact h

theorem keeps_bucketAt (index : ℕ) :
    Keeps Table.counts (bucketAt index : TableM K V (Bucket K V)) := by
  intro s value s' hrun
  rw [bucketAt] at hrun
  split at hrun <;> cases hrun
  rfl

theorem keeps_modifyBucket (index : ℕ) (change : Bucket K V → Bucket K V) :
    Keeps Table.counts (modifyBucket index change) := by
  apply (keeps_bucketAt index).bind
  intro bucket
  exact .modify fun _ ↦ rfl

theorem keeps_findEntry [BEq K] [Hashable K] (key : K) :
    Keeps Table.counts (findEntry key : TableM K V (ℕ × ℕ × Bool)) := by
  apply Keeps.bind
  · exact Keeps.get.bind fun _ ↦ Keeps.throw.ite .pure
  · intro index
    exact (keeps_bucketAt index).bind fun _ ↦ .pure

end Counts

section Step

variable [Hashable K] {s s' : Table K V}

/-- The counts after `Rehash`. -/
theorem rehash_counts {count : ℕ} (hrun : rehash count s = .ok () s') :
    s'.size = s.size ∧ s'.capacity = rehashedCapacity s count := by
  by_cases hprovides : s.Provides (1 + s.table.flatten.length)
  · obtain ⟨newTable, -, hrun'⟩ := rehash_returns hprovides count
    cases hrun'.symm.trans hrun
    exact ⟨rfl, rfl⟩
  · obtain ⟨spent, hrun'⟩ := rehash_fails hprovides count
    cases hrun'.symm.trans hrun

/-- `Rehash` leaves at least one bucket, at least as many as it was asked for, and a table within
the load factor, whatever the table was. -/
theorem rehash_loaded {count : ℕ} (hrun : rehash count s = .ok () s') :
    max count 1 ≤ s'.capacity ∧ s'.Loaded := by
  obtain ⟨hsize, hcapacity⟩ := rehash_counts hrun
  have hpos := rehashedCapacity_pos s count
  have hcount : count ≤ rehashedCapacity s count := Nat.le_max_left ..
  rw [Table.Loaded, hsize, hcapacity]
  exact ⟨max_le hcount hpos, four_mul_size_le s.size count⟩

/-- A new entry leaves a table within the load factor, whatever the table was. -/
theorem insertNew_loaded {index : ℕ} {key : K} {value : V}
    (hrun : insertNew index key value s = .ok () s') : s'.Loaded := by
  obtain ⟨_, s₁, -, hrun⟩ := exists_of_bind_ok hrun
  obtain ⟨_, s₂, -, hrun⟩ := exists_of_bind_ok hrun
  rw [bind_ok (modify_apply _ _), bind_ok (get_apply _)] at hrun
  split_ifs at hrun with hload
  · exact (rehash_loaded hrun).2
  · cases hrun
    exact Nat.le_of_not_lt hload

variable [BEq K]

theorem insert_loaded {key : K} {value : V} (h : s.Loaded)
    (hrun : insert key value s = .ok () s') : s'.Loaded := by
  obtain ⟨⟨index, iter, found⟩, s₁, hfind, hrun⟩ := exists_of_bind_ok hrun
  cases found with
  | true =>
    have hcounts := keeps_modifyBucket _ _ _ _ _ hrun
    exact h.congr (hcounts.trans (keeps_findEntry key _ _ _ hfind))
  | false => exact insertNew_loaded hrun

theorem find_loaded {key : K} {answer : Option V} (h : s.Loaded)
    (hrun : find key s = .ok answer s') : s'.Loaded := by
  obtain ⟨⟨index, iter, found⟩, s₁, hfind, hrun⟩ := exists_of_bind_ok hrun
  have hcounts := keeps_findEntry key _ _ _ hfind
  cases found with
  | true =>
    have hcounts' := (keeps_bucketAt index).bind (fun _ ↦ Keeps.pure) _ _ _ hrun
    exact h.congr (hcounts'.trans hcounts)
  | false =>
    cases hrun
    exact h.congr hcounts

theorem remove_loaded {key : K} {answer : Bool} (h : s.Loaded)
    (hrun : remove key s = .ok answer s') : s'.Loaded := by
  obtain ⟨⟨index, iter, found⟩, s₁, hfind, hrun⟩ := exists_of_bind_ok hrun
  have hcounts := keeps_findEntry key _ _ _ hfind
  cases found with
  | true =>
    obtain ⟨_, s₂, hmodify, hrun⟩ := exists_of_bind_ok hrun
    have hloaded : s₂.Loaded := h.congr ((keeps_modifyBucket _ _ _ _ _ hmodify).trans hcounts)
    cases hrun
    exact (Nat.mul_le_mul_left 4 (Nat.sub_le s₂.size 1)).trans hloaded
  | false =>
    cases hrun
    exact h.congr hcounts

/-- An operation that completes keeps a table within the load factor. -/
theorem exec_loaded {op : Op K V} {response : Response V} (h : s.Loaded)
    (hrun : exec op s = .ok response s') : s'.Loaded := by
  cases op with
  | insert key value =>
    obtain ⟨_, s₁, hinsert, hrun⟩ := exists_of_bind_ok hrun
    cases hrun
    exact insert_loaded h hinsert
  | find key =>
    obtain ⟨_, s₁, hfind, hrun⟩ := exists_of_bind_ok hrun
    cases hrun
    exact find_loaded h hfind
  | remove key =>
    obtain ⟨_, s₁, hremove, hrun⟩ := exists_of_bind_ok hrun
    cases hrun
    exact remove_loaded h hremove
  | rehash count =>
    obtain ⟨_, s₁, hrehash, hrun⟩ := exists_of_bind_ok hrun
    cases hrun
    exact (rehash_loaded hrehash).2

/-! ### Runs -/

/-- Operations that complete, one after another. -/
theorem runOps_loaded {ops : List (Op K V)} {responses : List (Response V)} (h : s.Loaded)
    (hrun : runOps ops s = .ok responses s') : s'.Loaded := by
  induction ops generalizing s responses with
  | nil =>
    cases hrun
    exact h
  | cons op ops ih =>
    obtain ⟨_, s₁, hexec, hrun⟩ := exists_of_bind_ok hrun
    obtain ⟨_, s₂, hrest, hrun⟩ := exists_of_bind_ok hrun
    cases hrun
    exact ih (exec_loaded h hexec) hrest

end Step

/-- Whatever the initial number of buckets and whichever operations complete, the table is within
the load factor. Every `Rehash` leaves as many buckets as it was asked for, one at least, and a
table within the load factor; so the condition under which `Insert` rehashes does not hold when it
is done. -/
theorem load_factor [BEq K] [Hashable K] :
    (∀ (cap : ℕ) (outcomes : List Bool) (ops : List (Op K V)) (responses : List (Response V))
      (s : Table K V), runOps ops (constructIn cap outcomes) = .ok responses s →
        4 * s.size ≤ 3 * s.capacity) ∧
    (∀ (count : ℕ) (s s' : Table K V), rehash count s = .ok () s' →
      max count 1 ≤ s'.capacity ∧ 4 * s'.size ≤ 3 * s'.capacity) ∧
    ∀ (index : ℕ) (key : K) (value : V) (s s' : Table K V),
      insertNew index key value s = .ok () s' → ¬3 * s'.capacity < 4 * s'.size := by
  refine ⟨?_, fun _ _ _ hrun ↦ rehash_loaded hrun, ?_⟩
  · intro cap outcomes ops responses s hrun
    have hstart : (constructIn cap outcomes : Table K V).Loaded := Nat.zero_le _
    exact runOps_loaded hstart hrun
  · intro index key value s s' hrun
    exact Nat.not_lt.mpr (insertNew_loaded hrun)

/-- A table without buckets after a request for none and an insertion that rehashes, and a table of
one bucket that is rehashed and one that gets an entry. -/
theorem load_factor_small :
    (∃ s : Table ℕ Char, runOps [.rehash 0, .insert 3 'a'] (constructIn 0 []) =
      .ok [.done, .done] s ∧ 4 * s.size ≤ 3 * s.capacity) ∧
    (∃ s' : Table ℕ Char, rehash 0 (construct 1) = .ok () s' ∧
      max 0 1 ≤ s'.capacity ∧ 4 * s'.size ≤ 3 * s'.capacity) ∧
    ∃ s' : Table ℕ Char, insertNew 0 5 'c' (construct 1) = .ok () s' ∧
      ¬3 * s'.capacity < 4 * s'.size := by
  refine ⟨⟨_, rfl, ?_⟩, ⟨⟨[[]], 0, 1, []⟩, rfl, ?_⟩, ⟨[[], [⟨5, 'c'⟩]], 1, 2, []⟩, rfl, ?_⟩
  · exact load_factor.1 0 [] [.rehash 0, .insert 3 'a'] [.done, .done] _ rfl
  · exact load_factor.2.1 0 (construct 1) _ rfl
  · exact load_factor.2.2 0 5 'c' (construct 1) _ rfl

end StudStuff.HashTable
