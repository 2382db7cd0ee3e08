import Mathlib.Data.List.Dedup
import Mathlib.Data.List.Perm.Basic

/-!
# Relational operators

The clauses of a query, on lists of rows: `leftJoin` pairs each row with those that it matches, or
with nothing, `groupBy` collects the rows with the same key, `orderBy` sorts by a number and
`distinct` drops repeated values. Each has a lemma that says what is in the result
(`mem_leftJoin`, `mem_groupBy`). A row may be added to a table with a key if no row has its key
(`nodup_concat`).
-/

set_option autoImplicit false
set_option relaxedAutoImplicit false

namespace StudStuff.Lib

variable {α β κ : Type}

/-! ### Joins -/

section Join

/-- `LEFT JOIN … ON …`. A row that matches nothing stays, without a partner. -/
def leftJoin (left : List α) (right : List β) (on : α → β → Bool) : List (α × Option β) :=
  left.flatMap fun row ↦
    match right.filter (on row) with
    | [] => [(row, none)]
    | found => found.map fun other ↦ (row, some other)

variable {left : List α} {right : List β} {on : α → β → Bool} {row : α}

theorem mem_leftJoin_some {other : β} : (row, some other) ∈ leftJoin left right on ↔
    row ∈ left ∧ other ∈ right ∧ on row other = true := by
  have hpartner (row' : α) : (row, some other) ∈ (match right.filter (on row') with
      | [] => [(row', none)]
      | found => found.map fun other ↦ (row', some other)) ↔
        row = row' ∧ other ∈ right ∧ on row' other = true := by
    rw [← List.mem_filter]
    cases right.filter (on row') with
    | nil => simp
    | cons first found => simp [and_or_left, and_comm, eq_comm]
  simp only [leftJoin, List.mem_flatMap, hpartner]
  constructor
  · rintro ⟨row', hmem, rfl, hother⟩
    exact ⟨hmem, hother⟩
  · rintro ⟨hmem, hother⟩
    exact ⟨row, hmem, rfl, hother⟩

theorem mem_leftJoin_none : (row, none) ∈ leftJoin left right on ↔
    row ∈ left ∧ ∀ other ∈ right, on row other = false := by
  have hpartner (row' : α) : (row, none) ∈ (match right.filter (on row') with
      | [] => [(row', none)]
      | found => found.map fun other ↦ (row', some other)) ↔
        row = row' ∧ ∀ other ∈ right, on row' other = false := by
    have hnothing := List.filter_eq_nil_iff (p := on row') (l := right)
    cases hfound : right.filter (on row') with
    | nil =>
      rw [hfound] at hnothing
      simpa using fun _ ↦ hnothing.mp rfl
    | cons first found =>
      have hmem : first ∈ right ∧ on row' first = true := by
        rw [← List.mem_filter, hfound]
        exact List.mem_cons_self
      constructor
      · simp
      · rintro ⟨-, hnone⟩
        cases (hnone first hmem.1).symm.trans hmem.2
  simp only [leftJoin, List.mem_flatMap, hpartner]
  constructor
  · rintro ⟨row', hmem, rfl, hother⟩
    exact ⟨hmem, hother⟩
  · rintro ⟨hmem, hother⟩
    exact ⟨row, hmem, rfl, hother⟩

/-- What a left join finds for a row. -/
theorem mem_leftJoin {partner : Option β} : (row, partner) ∈ leftJoin left right on ↔
    row ∈ left ∧ ((∃ other ∈ right, on row other = true ∧ partner = some other) ∨
      (∀ other ∈ right, on row other = false) ∧ partner = none) := by
  cases partner with
  | none => simp [mem_leftJoin_none]
  | some other => simp [mem_leftJoin_some]

/-- Every row of the left side is in the result. -/
theorem exists_leftJoin (right : List β) (on : α → β → Bool) (hmem : row ∈ left) :
    ∃ partner, (row, partner) ∈ leftJoin left right on := by
  by_cases hfound : ∃ other ∈ right, on row other = true
  · obtain ⟨other, hother, hon⟩ := hfound
    exact ⟨some other, mem_leftJoin_some.mpr ⟨hmem, hother, hon⟩⟩
  · refine ⟨none, mem_leftJoin_none.mpr ⟨hmem, fun other hother ↦ ?_⟩⟩
    exact Bool.eq_false_iff.mpr fun hon ↦ hfound ⟨other, hother, hon⟩

end Join

/-! ### Groups -/

section Group

variable [DecidableEq κ] {key : α → κ} {rows : List α}

/-- `GROUP BY`: the keys of the rows, each with its rows. -/
def groupBy (key : α → κ) (rows : List α) : List (κ × List α) :=
  (rows.map key).dedup.map fun group ↦ (group, rows.filter (key · = group))

theorem mem_groupBy {group : κ} {members : List α} : (group, members) ∈ groupBy key rows ↔
    (∃ row ∈ rows, key row = group) ∧ members = rows.filter (key · = group) := by
  simp only [groupBy, List.mem_map, List.mem_dedup, Prod.mk.injEq]
  constructor
  · rintro ⟨group', hgroup, rfl, rfl⟩
    exact ⟨hgroup, rfl⟩
  · rintro ⟨hgroup, rfl⟩
    exact ⟨group, hgroup, rfl, rfl⟩

/-- There is one group for each key. -/
theorem keys_groupBy (key : α → κ) (rows : List α) :
    (groupBy key rows).map Prod.fst = (rows.map key).dedup := by
  rw [groupBy, List.map_map]
  exact List.map_id _

end Group

/-! ### Order -/

section Order

/-- `ORDER BY` a number. -/
def orderBy (number : α → Int) (rows : List α) : List α :=
  rows.mergeSort fun row other ↦ number row ≤ number other

theorem orderBy_perm (number : α → Int) (rows : List α) : (orderBy number rows).Perm rows :=
  List.mergeSort_perm rows _

/-- Rows with different numbers are in ascending order. -/
theorem orderBy_pairwise {number : α → Int} {rows : List α} (hnodup : (rows.map number).Nodup) :
    (orderBy number rows).Pairwise fun row other ↦ number row < number other := by
  have hle : (orderBy number rows).Pairwise fun row other ↦
      decide (number row ≤ number other) = true := by
    refine List.pairwise_mergeSort (fun a b c ↦ ?_) (fun a b ↦ ?_) rows
    · simp only [decide_eq_true_eq]
      exact Int.le_trans
    · simp only [Bool.or_eq_true, decide_eq_true_eq]
      exact Int.le_total _ _
  have hne : (orderBy number rows).Pairwise fun row other ↦ number row ≠ number other := by
    rw [← List.pairwise_map]
    exact ((orderBy_perm number rows).map number).nodup_iff.mpr hnodup
  refine (hle.and hne).imp fun hrow ↦ ?_
  exact Int.lt_iff_le_and_ne.mpr ⟨of_decide_eq_true hrow.1, hrow.2⟩

end Order

/-! ### Keys -/

/-- A row with a key that no other row has. -/
theorem nodup_concat {key : α → κ} {rows : List α} {row : α} (hnodup : (rows.map key).Nodup)
    (hfresh : ∀ other ∈ rows, key other ≠ key row) : ((rows ++ [row]).map key).Nodup := by
  rw [List.map_append, List.map_singleton]
  refine List.nodup_append.mpr ⟨hnodup, List.nodup_singleton _, fun value hmem other hother ↦ ?_⟩
  obtain ⟨row', hrow', rfl⟩ := List.mem_map.mp hmem
  rw [List.mem_singleton.mp hother]
  exact hfresh row' hrow'

end StudStuff.Lib
