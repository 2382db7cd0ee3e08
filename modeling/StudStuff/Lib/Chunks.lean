import Mathlib.Data.Nat.Notation

/-!
# Consecutive chunks of a list

A list is cut into consecutive chunks of one size (`chunks`). Together they are the list
(`flatten_chunks`), all of them but the last have the full size (`length_of_mem_dropLast_chunks`),
and the last one has at least one element (`length_of_getLast?_chunks`).
-/

set_option autoImplicit false
set_option relaxedAutoImplicit false

namespace StudStuff.Lib

variable {α : Type} {size : ℕ} {xs front : List α}

/-- The consecutive chunks of a list. The last one may be shorter than the others. -/
def chunks (size : ℕ) : List α → List (List α)
  | [] => []
  | first :: rest => (first :: rest.take (size - 1)) :: chunks size (rest.drop (size - 1))
termination_by xs => xs.length
decreasing_by
  rw [List.length_drop, List.length_cons]
  omega

theorem chunks_nil (size : ℕ) : chunks size ([] : List α) = [] := by
  rw [chunks]

theorem chunks_of_ne_nil (hsize : 0 < size) (hne : xs ≠ []) :
    chunks size xs = xs.take size :: chunks size (xs.drop size) := by
  obtain ⟨first, rest, rfl⟩ := List.exists_cons_of_ne_nil hne
  obtain ⟨less, rfl⟩ := Nat.exists_eq_add_one_of_ne_zero (Nat.ne_of_gt hsize)
  rw [chunks, Nat.add_sub_cancel, List.take_succ_cons, List.drop_succ_cons]

/-- The first chunk is a front of the full size. -/
theorem chunks_append (hsize : 0 < size) (hlength : front.length = size) (xs : List α) :
    chunks size (front ++ xs) = front :: chunks size xs := by
  have hne : front ++ xs ≠ [] := by
    intro hnil
    rw [(List.append_eq_nil_iff.mp hnil).1, List.length_nil] at hlength
    omega
  rw [chunks_of_ne_nil hsize hne, ← hlength, List.take_left, List.drop_left]

/-- A list that is no longer than a chunk is one. -/
theorem chunks_of_length_le (hsize : 0 < size) (hne : xs ≠ []) (hlength : xs.length ≤ size) :
    chunks size xs = [xs] := by
  rw [chunks_of_ne_nil hsize hne, List.take_of_length_le hlength, List.drop_of_length_le hlength,
    chunks_nil]

/-- A rule about the chunks of a list: it holds when there is only one chunk or none, and when it
holds for what follows a chunk of the full size. -/
theorem chunk_induction {motive : List α → Prop} (hsize : 0 < size) (nil : motive [])
    (last : ∀ xs, xs ≠ [] → xs.length ≤ size → motive xs)
    (next : ∀ front xs, front.length = size → xs ≠ [] → motive xs → motive (front ++ xs))
    (xs : List α) : motive xs := by
  by_cases hle : xs.length ≤ size
  · by_cases hne : xs = []
    · rw [hne]
      exact nil
    · exact last xs hne hle
  · have hfront : (xs.take size).length = size := List.length_take_of_le (by omega)
    have hrest : xs.drop size ≠ [] := by
      intro hnil
      exact hle (List.drop_eq_nil_iff.mp hnil)
    have hdrop := chunk_induction hsize nil last next (xs.drop size)
    rw [← List.take_append_drop size xs]
    exact next _ _ hfront hrest hdrop
termination_by xs.length
decreasing_by
  rw [List.length_drop]
  omega

/-- The chunks together are the list. -/
theorem flatten_chunks (hsize : 0 < size) (xs : List α) : (chunks size xs).flatten = xs := by
  induction xs using chunk_induction hsize with
  | nil => rw [chunks_nil, List.flatten_nil]
  | last xs hne hle =>
    rw [chunks_of_length_le hsize hne hle, List.flatten_singleton]
  | next front xs hlength _ ih =>
    rw [chunks_append hsize hlength, List.flatten_cons, ih]

theorem chunks_ne_nil (hsize : 0 < size) (hne : xs ≠ []) : chunks size xs ≠ [] := by
  rw [chunks_of_ne_nil hsize hne]
  exact List.cons_ne_nil _ _

/-- No chunk is empty. -/
theorem ne_nil_of_mem_chunks (hsize : 0 < size) {chunk : List α} (hmem : chunk ∈ chunks size xs) :
    chunk ≠ [] := by
  induction xs using chunk_induction hsize with
  | nil =>
    rw [chunks_nil] at hmem
    cases hmem
  | last xs hne hle =>
    rw [chunks_of_length_le hsize hne hle, List.mem_singleton] at hmem
    exact hmem ▸ hne
  | next front xs hlength _ ih =>
    rw [chunks_append hsize hlength, List.mem_cons] at hmem
    rcases hmem with rfl | hmem
    · exact List.length_pos_iff.mp (hlength ▸ hsize)
    · exact ih hmem

/-- All chunks but the last have the full size. -/
theorem length_of_mem_dropLast_chunks (hsize : 0 < size) {chunk : List α}
    (hmem : chunk ∈ (chunks size xs).dropLast) : chunk.length = size := by
  induction xs using chunk_induction hsize with
  | nil =>
    rw [chunks_nil] at hmem
    cases hmem
  | last xs hne hle =>
    rw [chunks_of_length_le hsize hne hle] at hmem
    cases hmem
  | next front xs hlength hne ih =>
    rw [chunks_append hsize hlength, List.dropLast_cons_of_ne_nil (chunks_ne_nil hsize hne),
      List.mem_cons] at hmem
    rcases hmem with rfl | hmem
    · exact hlength
    · exact ih hmem

/-- The last chunk has at least one element and at most the full size. -/
theorem length_of_getLast?_chunks (hsize : 0 < size) {chunk : List α}
    (hlast : (chunks size xs).getLast? = some chunk) : 1 ≤ chunk.length ∧ chunk.length ≤ size := by
  induction xs using chunk_induction hsize with
  | nil =>
    rw [chunks_nil] at hlast
    cases hlast
  | last xs hne hle =>
    rw [chunks_of_length_le hsize hne hle] at hlast
    obtain rfl := Option.some.inj hlast
    exact ⟨List.length_pos_iff.mpr hne, hle⟩
  | next front xs hlength hne ih =>
    rw [chunks_append hsize hlength,
      List.getLast?_cons_of_ne_nil (chunks_ne_nil hsize hne)] at hlast
    exact ih hlast

end StudStuff.Lib
