import StudStuff.HashTable.LoadFactor

/-!
# The cost of growing

A table that fills up doubles its buckets and copies all its entries. Over a whole run the copies
are paid for by the insertions before them: six allocations for each insertion are enough, whatever
the keys and the initial number of buckets are and whatever is removed in between
(`runOps_amortized`). The potential of a table is how far its entries exceed three eighths of its
buckets, of which an allocation takes a quarter. It is at least the number of the entries when the
table rehashes, and next to nothing afterwards.
-/

set_option autoImplicit false
set_option relaxedAutoImplicit false

namespace StudStuff.HashTable

open Lib

variable {K V : Type}

/-! ### The potential -/

/-- What earlier insertions have paid for the next rehash, in quarters of an allocation. -/
def Table.potential (s : Table K V) : ℕ := 8 * s.size - 3 * s.capacity

/-- The allocations that are enough for a run, when so many entries may be there: six for an
insertion, and for a `Rehash` by the caller one and two for each entry. -/
def budget : ℕ → List (Op K V) → ℕ
  | _, [] => 0
  | count, .insert _ _ :: ops => 6 + budget (count + 1) ops
  | count, .find _ :: ops | count, .remove _ :: ops => budget count ops
  | count, .rehash _ :: ops => 1 + 2 * count + budget count ops

/-- Without calls of `Rehash`, six allocations for each insertion. -/
theorem budget_eq (count : ℕ) {ops : List (Op K V)} (hops : ∀ op ∈ ops, op.key? ≠ none) :
    budget count ops = 6 * ops.countP fun op ↦ op matches .insert _ _ := by
  induction ops generalizing count with
  | nil => rfl
  | cons op ops ih =>
    obtain ⟨hop, hrest⟩ := List.forall_mem_cons.mp hops
    cases op with
    | insert key value =>
      rw [budget, ih _ hrest, List.countP_cons_of_pos rfl]
      omega
    | find key => rw [budget, ih _ hrest, List.countP_cons_of_neg Bool.false_ne_true]
    | remove key => rw [budget, ih _ hrest, List.countP_cons_of_neg Bool.false_ne_true]
    | rehash target => exact absurd rfl hop

/-- A step between tables whose counts are right and that are within the load factor. What it
allocates is paid by its cost and by what the potential loses. -/
structure Paid (cost growth : ℕ) (s s' : Table K V) : Prop where
  framed : Framed s'
  loaded : s'.Loaded
  spent : ∃ spent, s'.outcomes = s.outcomes.drop spent ∧
    4 * spent + s'.potential ≤ s.potential + 4 * cost
  size : s'.size ≤ s.size + growth

section Steps

variable {s s' : Table K V} {cost growth funds : ℕ}

/-- A step without allocations. -/
theorem Paid.of_outcomes (hframed : Framed s') (hloaded : s'.Loaded)
    (houtcomes : s'.outcomes = s.outcomes) (hcapacity : s'.capacity = s.capacity)
    (hsize : s'.size ≤ s.size) : Paid cost growth s s' := by
  refine ⟨hframed, hloaded, ⟨0, houtcomes, ?_⟩, Nat.le_add_right_of_le hsize⟩
  rw [Table.potential, Table.potential, hcapacity]
  omega

theorem Table.Provides.mono {count more : ℕ} (h : s.Provides more) (hle : count ≤ more) :
    s.Provides count := by
  obtain ⟨rest, rfl⟩ := Nat.exists_eq_add_of_le hle
  exact ((s.provides_add count rest).mp h).1

/-- What is left of the funds after a step is enough for the rest. -/
theorem Paid.rest (h : Paid cost growth s s') (hprovides : s.Provides funds) {more : ℕ}
    (hfunds : s.potential + 4 * (cost + more) ≤ 4 * funds) :
    ∃ spent rest, funds = spent + rest ∧ s'.outcomes = s.outcomes.drop spent ∧
      s'.Provides rest ∧ s'.potential + 4 * more ≤ 4 * rest := by
  obtain ⟨spent, houtcomes, hpaid⟩ := h.spent
  refine ⟨spent, funds - spent, by omega, houtcomes, ?_, by omega⟩
  have hsplit : s.Provides (spent + (funds - spent)) := by
    rwa [Nat.add_sub_cancel' (by omega)]
  rw [Table.Provides, houtcomes]
  exact ((s.provides_add _ _).mp hsplit).2

variable [Hashable K]

/-- The outcomes that `Rehash` uses up. -/
theorem rehash_outcomes (hframed : Framed s) (hprovides : s.Provides (1 + s.size)) (count : ℕ) :
    ∃ s', rehash count s = .ok () s' ∧ Framed s' ∧ s'.Loaded ∧ s'.size = s.size ∧
      s'.capacity = rehashedCapacity s count ∧ s'.outcomes = s.outcomes.drop (1 + s.size) := by
  rw [hframed.size] at hprovides
  obtain ⟨newTable, hmoved, hrun⟩ := rehash_returns hprovides count
  obtain ⟨s', hrun', hframed', hsize, hcapacity⟩ := rehash_framed hframed.size hprovides count
  have hloaded := (rehash_loaded hrun').2
  cases hrun.symm.trans hrun'
  exact ⟨_, hrun, hframed', hloaded, hsize, hcapacity, by rw [hframed.size]; rfl⟩

/-- A `Rehash` by the caller. -/
theorem rehash_paid (hframed : Framed s) (hprovides : s.Provides funds) {count : ℕ}
    (hfunds : s.potential + 4 * (1 + 2 * s.size) ≤ 4 * funds) :
    ∃ s', rehash count s = .ok () s' ∧ Paid (1 + 2 * s.size) 0 s s' := by
  obtain ⟨s', hrun, hframed', hloaded, hsize, hcapacity, houtcomes⟩ :=
    rehash_outcomes hframed (hprovides.mono (by omega)) count
  refine ⟨s', hrun, hframed', hloaded, ⟨1 + s.size, houtcomes, ?_⟩, hsize.le⟩
  have hmin : minBuckets s.size ≤ rehashedCapacity s count := Nat.le_max_right ..
  rw [minBuckets] at hmin
  rw [Table.potential, hsize, hcapacity]
  omega

/-- A new entry, with the rehash that it may lead to. -/
theorem insertNew_paid (hframed : Framed s) (hloaded : s.Loaded) (hprovides : s.Provides funds)
    (hfunds : s.potential + 4 * 6 ≤ 4 * funds) {index : ℕ} {bucket : Bucket K V}
    (hbucket : s.table[index]? = some bucket) (key : K) (value : V) :
    ∃ s', insertNew index key value s = .ok () s' ∧ Paid 6 1 s s' := by
  rw [Table.potential] at hfunds
  have hlinked := hframed.linked hbucket ⟨key, value⟩
  rw [insertNew_linked (hprovides.mono (by omega)) hbucket key value]
  split_ifs with hfull
  · have hnext : (s.linked index bucket ⟨key, value⟩).Provides (1 + (s.size + 1)) := by
      have hmore := hprovides.mono (show 1 + (1 + (s.size + 1)) ≤ funds by omega)
      exact ((s.provides_add _ _).mp hmore).2
    obtain ⟨s', hrun, hframed', hloaded', hsize, hcapacity, houtcomes⟩ :=
      rehash_outcomes hlinked hnext (s.capacity * 2)
    have hsize' : s'.size = s.size + 1 := hsize
    refine ⟨s', hrun, hframed', hloaded', ⟨1 + (1 + (s.size + 1)), ?_, ?_⟩, hsize'.le⟩
    · rw [houtcomes]
      exact List.drop_drop
    · have hdouble : s.capacity * 2 ≤ s'.capacity := by
        rw [hcapacity]
        exact Nat.le_max_left ..
      rw [Table.Loaded] at hloaded
      rw [Table.potential, Table.potential, hsize']
      omega
  · refine ⟨_, rfl, hlinked, Nat.le_of_not_lt hfull, ⟨1, rfl, ?_⟩, Nat.le_refl _⟩
    show 4 * 1 + (8 * (s.size + 1) - 3 * s.capacity) ≤ s.potential + 4 * 6
    rw [Table.potential]
    omega

variable [BEq K]

theorem insert_paid (hframed : Framed s) (hloaded : s.Loaded) (hprovides : s.Provides funds)
    (hfunds : s.potential + 4 * 6 ≤ 4 * funds) (key : K) (value : V) :
    ∃ s', insert key value s = .ok () s' ∧ Paid 6 1 s s' := by
  obtain ⟨bucket, hbucket, hlocated⟩ := findEntry_run hframed key
  cases hlocated with
  | found front entry back hsplit hkey hrun =>
    refine ⟨_, (bind_ok hrun).trans (modifyBucket_apply hbucket _),
      .of_outcomes ?_ hloaded rfl rfl (Nat.le_refl _)⟩
    apply hframed.set s.outcomes hbucket
    rw [List.length_modify]
  | missing hfresh hrun =>
    obtain ⟨s', hrun', hpaid⟩ := insertNew_paid hframed hloaded hprovides hfunds hbucket key value
    exact ⟨s', (bind_ok hrun).trans hrun', hpaid⟩

theorem find_paid (hframed : Framed s) (hloaded : s.Loaded) (key : K) :
    ∃ answer, find key s = .ok answer s ∧ Paid 0 0 s s := by
  have hpaid : Paid 0 0 s s := .of_outcomes hframed hloaded rfl rfl (Nat.le_refl _)
  obtain ⟨bucket, hbucket, hlocated⟩ := findEntry_run hframed key
  cases hlocated with
  | found front entry back hsplit hkey hrun =>
    exact ⟨_, (bind_ok hrun).trans (bind_ok (bucketAt_apply hbucket)), hpaid⟩
  | missing hfresh hrun => exact ⟨_, bind_ok hrun, hpaid⟩

theorem remove_paid (hframed : Framed s) (hloaded : s.Loaded) (key : K) :
    ∃ answer s', remove key s = .ok answer s' ∧ Paid 0 0 s s' := by
  obtain ⟨bucket, hbucket, hlocated⟩ := findEntry_run hframed key
  cases hlocated with
  | found front entry back hsplit hkey hrun =>
    have hrun' : remove key s = .ok true { s with
        table := s.table.set (hashFunction key % s.capacity) (bucket.eraseIdx front.length)
        size := s.size - 1 } :=
      (bind_ok hrun).trans (bind_ok (modifyBucket_apply hbucket _))
    have hloaded' := remove_loaded hloaded hrun'
    refine ⟨true, _, hrun', .of_outcomes ?_ hloaded' rfl rfl (Nat.sub_le s.size 1)⟩
    exact (remove_keeps hframed key).ok hrun'
  | missing hfresh hrun =>
    exact ⟨_, s, bind_ok hrun, .of_outcomes hframed hloaded rfl rfl (Nat.le_refl _)⟩

/-- One operation, of which the rest of a run follows. -/
theorem exec_paid (hframed : Framed s) (hloaded : s.Loaded) (hprovides : s.Provides funds)
    {count : ℕ} (hcount : s.size ≤ count) (op : Op K V) (ops : List (Op K V))
    (hfunds : s.potential + 4 * budget count (op :: ops) ≤ 4 * funds) :
    ∃ response s' cost growth, exec op s = .ok response s' ∧ Paid cost growth s s' ∧
      cost + budget (count + growth) ops ≤ budget count (op :: ops) := by
  cases op with
  | insert key value =>
    rw [budget] at hfunds
    obtain ⟨s', hrun, hpaid⟩ := insert_paid hframed hloaded hprovides (by omega) key value
    exact ⟨_, s', 6, 1, bind_ok hrun, hpaid, Nat.le_refl _⟩
  | find key =>
    obtain ⟨answer, hrun, hpaid⟩ := find_paid hframed hloaded key
    exact ⟨_, s, 0, 0, bind_ok hrun, hpaid, (Nat.zero_add _).le⟩
  | remove key =>
    obtain ⟨answer, s', hrun, hpaid⟩ := remove_paid hframed hloaded key
    exact ⟨_, s', 0, 0, bind_ok hrun, hpaid, (Nat.zero_add _).le⟩
  | rehash target =>
    rw [budget] at hfunds
    obtain ⟨s', hrun, hpaid⟩ := rehash_paid hframed hprovides (by omega)
    refine ⟨_, s', 1 + 2 * s.size, 0, bind_ok hrun, hpaid, ?_⟩
    rw [budget, Nat.add_zero]
    omega

end Steps

/-! ### Runs -/

section Runs

variable [BEq K] [Hashable K] {s : Table K V} {funds count : ℕ}

/-- A run that the potential and the outcomes to come provide for. -/
theorem runOps_paid (hframed : Framed s) (hloaded : s.Loaded) (hprovides : s.Provides funds)
    (hcount : s.size ≤ count) (ops : List (Op K V))
    (hfunds : s.potential + 4 * budget count ops ≤ 4 * funds) :
    ∃ responses s' spent, runOps ops s = .ok responses s' ∧ spent ≤ funds ∧
      s'.outcomes = s.outcomes.drop spent := by
  induction ops generalizing s funds count with
  | nil => exact ⟨[], s, 0, rfl, Nat.zero_le _, rfl⟩
  | cons op ops ih =>
    obtain ⟨response, s₁, cost, growth, hrun, hpaid, hbudget⟩ :=
      exec_paid hframed hloaded hprovides hcount op ops hfunds
    have hfunds' : s.potential + 4 * (cost + budget (count + growth) ops) ≤ 4 * funds := by omega
    obtain ⟨spent, rest, rfl, houtcomes, hprovides₁, hrest⟩ := hpaid.rest hprovides hfunds'
    obtain ⟨responses, s₂, spent', hrun', hle, houtcomes'⟩ :=
      ih hpaid.framed hpaid.loaded hprovides₁ (hpaid.size.trans (by omega)) hrest
    refine ⟨_, s₂, spent + spent', (bind_ok hrun).trans (bind_ok hrun'), by omega, ?_⟩
    rw [houtcomes', houtcomes, List.drop_drop]

end Runs

end StudStuff.HashTable
