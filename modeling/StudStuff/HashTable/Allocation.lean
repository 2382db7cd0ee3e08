import StudStuff.Lib.Execution
import StudStuff.HashTable.Table

/-!
# Programs that allocate

`Allocates count program` says that a program makes so many allocations and nothing else that shows
in the table. Which of them succeed is written in the table (`outcomes`), so it is known when the
program returns: if none of the coming outcomes is a failure. The rules compose these counts.
-/

set_option autoImplicit false
set_option relaxedAutoImplicit false

namespace StudStuff.HashTable

open Lib

variable {K V α β : Type}

/-- The table after so many allocations. -/
def Table.spend (s : Table K V) (count : ℕ) : Table K V :=
  { s with outcomes := s.outcomes.drop count }

/-- All of so many coming allocations succeed. -/
def Table.Provides (s : Table K V) (count : ℕ) : Prop := false ∉ s.outcomes.take count

instance (s : Table K V) (count : ℕ) : Decidable (s.Provides count) :=
  inferInstanceAs (Decidable (false ∉ s.outcomes.take count))

section Spend

variable (s : Table K V) (count more : ℕ)

@[simp] theorem Table.spend_zero : s.spend 0 = s := rfl

@[simp] theorem Table.spend_spend : (s.spend count).spend more = s.spend (count + more) := by
  rw [spend, spend, spend, List.drop_drop]

/-- A memory that never fails is not used up. -/
theorem Table.spend_of_memory {s : Table K V} (hmemory : s.outcomes = []) (count : ℕ) :
    s.spend count = s := by
  rw [spend, hmemory, List.drop_nil, ← hmemory]

theorem Table.provides_of_memory {s : Table K V} (hmemory : s.outcomes = []) (count : ℕ) :
    s.Provides count := by
  rw [Provides, hmemory, List.take_nil]
  exact List.not_mem_nil

/-- Allocations one after another. -/
theorem Table.provides_add :
    s.Provides (count + more) ↔ s.Provides count ∧ (s.spend count).Provides more := by
  rw [Provides, Provides, Provides, spend, List.take_add, List.mem_append, not_or]

end Spend

/-- A program makes so many allocations. It returns a value with a property if all of them succeed,
and runs out of memory otherwise. Apart from the allocations it leaves the table as it is. -/
structure Allocates (count : ℕ) (program : TableM K V α) (returns : α → Prop) (s : Table K V) :
    Prop where
  ok : s.Provides count → ∃ value, program s = .ok value (s.spend count) ∧ returns value
  error : ¬s.Provides count → ∃ spent, program s = .error .badAlloc (s.spend spent)

namespace Allocates

variable {s : Table K V} {count more : ℕ} {program program' : TableM K V α} {returns : α → Prop}

theorem pure {value : α} (h : returns value) :
    Allocates 0 (pure value : TableM K V α) returns s := by
  constructor
  · intro _
    exact ⟨value, rfl, h⟩
  · intro hfails
    exact absurd List.not_mem_nil hfails

/-- One allocation. -/
theorem allocate : Allocates 1 (allocate : TableM K V Unit) (fun _ ↦ True) s := by
  obtain ⟨table, size, capacity, outcomes⟩ := s
  constructor
  · intro hprovides
    cases outcomes with
    | nil => exact ⟨(), rfl, trivial⟩
    | cons outcome rest =>
      cases outcome with
      | true => exact ⟨(), rfl, trivial⟩
      | false => exact absurd List.mem_cons_self hprovides
  · intro hfails
    cases outcomes with
    | nil => exact absurd List.not_mem_nil hfails
    | cons outcome rest =>
      cases outcome with
      | true => exact absurd (by simp [Table.Provides]) hfails
      | false => exact ⟨1, rfl⟩

/-- The rule of sequence: the allocations add up. -/
theorem bind {next : α → TableM K V β} {returns' : β → Prop}
    (h : Allocates count program returns s)
    (hnext : ∀ value, returns value → Allocates more (next value) returns' (s.spend count)) :
    Allocates (count + more) (program >>= next) returns' s := by
  constructor
  · intro hprovides
    obtain ⟨hfirst, hsecond⟩ := (s.provides_add count more).mp hprovides
    obtain ⟨value, hrun, hvalue⟩ := h.ok hfirst
    obtain ⟨value', hrun', hvalue'⟩ := (hnext value hvalue).ok hsecond
    rw [Table.spend_spend] at hrun'
    exact ⟨value', (bind_ok hrun).trans hrun', hvalue'⟩
  · intro hfails
    rw [s.provides_add, not_and] at hfails
    by_cases hfirst : s.Provides count
    · obtain ⟨value, hrun, hvalue⟩ := h.ok hfirst
      obtain ⟨spent, hrun'⟩ := (hnext value hvalue).error (hfails hfirst)
      rw [Table.spend_spend] at hrun'
      exact ⟨count + spent, (bind_ok hrun).trans hrun'⟩
    · obtain ⟨spent, hrun⟩ := h.error hfirst
      exact ⟨spent, bind_error hrun⟩

/-- The rule of consequence. -/
theorem mono {returns' : α → Prop} (h : Allocates count program returns s)
    (hreturns : ∀ value, returns value → returns' value) :
    Allocates count program returns' s := by
  constructor
  · intro hprovides
    obtain ⟨value, hrun, hvalue⟩ := h.ok hprovides
    exact ⟨value, hrun, hreturns value hvalue⟩
  · exact h.error

/-- A program that runs like another one. -/
theorem of_eq (heq : program' s = program s) (h : Allocates count program returns s) :
    Allocates count program' returns s := by
  constructor
  · rw [heq]
    exact h.ok
  · rw [heq]
    exact h.error

end Allocates

end StudStuff.HashTable
