import StudStuff.HashTable.Steps

/-!
# Where buckets are indexed

The constructor takes any number of buckets, none included. `IndexesDefined` says of a sequence of
operations that every `%` divides by a number other than zero and every index it yields is one of
the vector. An operation that runs out of memory throws, and the next one starts from the table it
leaves. A table with buckets always has them (`indexesDefined_of_framed`). One without them gets
some from the first `Rehash` that is not out of memory, and any other operation before that divides
by zero (`indexesDefined_iff`).
-/

set_option autoImplicit false
set_option relaxedAutoImplicit false

namespace StudStuff.HashTable

open Lib

variable {K V : Type}

/-- The key that an operation computes an index for. -/
def Op.key? : Op K V → Option K
  | .insert key _ | .find key | .remove key => some key
  | .rehash _ => none

/-- The operations without a key are those of `Rehash`. -/
theorem Op.exists_rehash {op : Op K V} (hop : op.key? = none) : ∃ count, op = .rehash count := by
  cases op with
  | rehash count => exact ⟨count, rfl⟩
  | _ => cases hop

/-- The constructor, in a memory in which the coming allocations have these outcomes. -/
def constructIn (cap : ℕ) (outcomes : List Bool) : Table K V :=
  { construct cap with outcomes := outcomes }

/-- The operations before the first `Rehash` that gets its memory are all `Rehash`: a table without
entries makes one allocation in each. -/
def RehashesFirst (outcomes : List Bool) (ops : List (Op K V)) : Prop :=
  ∀ op ∈ ops.take ((outcomes.takeWhile fun outcome ↦ !outcome).length + 1),
    ∃ count, op = .rehash count

theorem framed_constructIn {cap : ℕ} (hcap : 1 ≤ cap) (outcomes : List Bool) :
    Framed (constructIn cap outcomes : Table K V) := by
  refine ⟨hcap, List.length_replicate, ?_⟩
  show 0 = (List.replicate cap ([] : Bucket K V)).flatten.length
  rw [List.flatten_replicate_nil]
  rfl

/-- The index of a key in a table with buckets. -/
theorem index_framed [Hashable K] {s : Table K V} (h : Framed s) (key : K) :
    ∃ i, index key s = .ok i s ∧ i < s.table.length := by
  refine ⟨hashFunction key % s.capacity, ?_, ?_⟩
  · rw [index, bind_ok (get_apply s)]
    exact modulo_apply h.capacity _ s
  · rw [h.length]
    exact Nat.mod_lt _ h.capacity

section Runs

variable [BEq K] [Hashable K]

/-- Every index that a sequence of operations computes is defined and in range, and so is every
index into the new table of a `Rehash`: no operation stops for any other reason than memory. -/
def IndexesDefined : List (Op K V) → Table K V → Prop
  | [], _ => True
  | op :: ops, s =>
    (∀ key ∈ op.key?, ∃ i, index key s = .ok i s ∧ i < s.table.length) ∧
      match exec op s with
      | .ok _ s' => IndexesDefined ops s'
      | .error .badAlloc s' => IndexesDefined ops s'
      | .error _ _ => False

variable {s : Table K V}

/-- A table with buckets is indexed within them, whatever runs. -/
theorem indexesDefined_of_framed (h : Framed s) (ops : List (Op K V)) : IndexesDefined ops s := by
  induction ops generalizing s with
  | nil => trivial
  | cons op ops ih =>
    refine ⟨fun key _ ↦ index_framed h key, ?_⟩
    have hstep := exec_keeps h op
    cases hexec : exec op s with
    | ok response s' => exact ih (hstep.ok hexec)
    | error stop s' =>
      obtain ⟨rfl, hframed⟩ := hstep.error hexec
      exact ih hframed

/-- The first `Rehash` of a table without buckets, when its allocation fails. -/
theorem rehash_zero_fails (outcomes : List Bool) (count : ℕ) :
    exec (.rehash count) (constructIn 0 (false :: outcomes) : Table K V) =
      .error .badAlloc (constructIn 0 outcomes) :=
  rfl

/-- The first `Rehash` of a table without buckets, when its allocation succeeds. -/
theorem rehash_zero_returns {outcomes : List Bool} (houtcomes : outcomes.head? ≠ some false)
    (count : ℕ) : ∃ s' : Table K V,
      exec (.rehash count) (constructIn 0 outcomes) = .ok .done s' ∧ Framed s' := by
  have hprovides : (constructIn 0 outcomes : Table K V).Provides 1 := by
    cases outcomes with
    | nil => exact List.not_mem_nil
    | cons outcome rest =>
      cases outcome with
      | true => simp [constructIn, Table.Provides]
      | false => exact absurd rfl houtcomes
  obtain ⟨s', hrun, hframed, -⟩ := rehash_framed (s := constructIn 0 outcomes) rfl hprovides count
  exact ⟨s', bind_ok hrun, hframed⟩

/-- Any other operation on a table without buckets divides by zero. -/
theorem not_indexesDefined_zero {op : Op K V} {key : K} (hop : op.key? = some key)
    (ops : List (Op K V)) (outcomes : List Bool) :
    ¬IndexesDefined (op :: ops) (constructIn 0 outcomes) := by
  rintro ⟨hindex, -⟩
  obtain ⟨i, -, hlt⟩ := hindex key hop
  exact absurd hlt (Nat.not_lt_zero i)

/-- Operations on a table without buckets. -/
theorem indexesDefined_zero_iff (ops : List (Op K V)) (outcomes : List Bool) :
    IndexesDefined ops (constructIn 0 outcomes) ↔ RehashesFirst outcomes ops := by
  induction ops generalizing outcomes with
  | nil => simp [IndexesDefined, RehashesFirst]
  | cons op ops ih =>
    cases hop : op.key? with
    | some key =>
      have hnot : ¬RehashesFirst outcomes (op :: ops) := by
        intro hfirst
        obtain ⟨count, rfl⟩ := hfirst op (by simp)
        cases hop
      exact iff_of_false (not_indexesDefined_zero hop ops outcomes) hnot
    | none =>
      obtain ⟨count, rfl⟩ := Op.exists_rehash hop
      by_cases houtcomes : outcomes.head? = some false
      · obtain ⟨rest, rfl⟩ := List.head?_eq_some_iff.mp houtcomes
        have hfirst : RehashesFirst (false :: rest) (.rehash count :: ops) ↔
            RehashesFirst rest ops := by
          simp [RehashesFirst]
        rw [hfirst, ← ih, IndexesDefined, rehash_zero_fails]
        simp [Op.key?]
      · have hfirst : RehashesFirst outcomes (.rehash count :: ops) := by
          have hnone : (outcomes.takeWhile fun outcome ↦ !outcome) = [] := by
            cases outcomes with
            | nil => rfl
            | cons outcome rest =>
              cases outcome with
              | true => rfl
              | false => exact absurd rfl houtcomes
          simp [RehashesFirst, hnone]
        obtain ⟨s', hrun, hframed⟩ := rehash_zero_returns (K := K) (V := V) houtcomes count
        refine iff_of_true ⟨by simp [Op.key?], ?_⟩ hfirst
        rw [hrun]
        exact indexesDefined_of_framed hframed ops

/-- Every bucket index is defined and in range exactly when the table starts with buckets or every
operation before the first `Rehash` that gets its memory is a `Rehash`. -/
theorem indexesDefined_iff (cap : ℕ) (outcomes : List Bool) (ops : List (Op K V)) :
    IndexesDefined ops (constructIn cap outcomes) ↔ 1 ≤ cap ∨ RehashesFirst outcomes ops := by
  by_cases hcap : 1 ≤ cap
  · exact iff_of_true (indexesDefined_of_framed (framed_constructIn hcap outcomes) ops)
      (Or.inl hcap)
  · obtain rfl : cap = 0 := by omega
    rw [indexesDefined_zero_iff, or_iff_right hcap]

end Runs

/-- A table that is constructed without buckets and searched at once. -/
theorem find_breaks_index :
    ¬IndexesDefined [.find 3] (constructIn 0 [] : Table ℕ Char) :=
  not_indexesDefined_zero rfl [] []

end StudStuff.HashTable
