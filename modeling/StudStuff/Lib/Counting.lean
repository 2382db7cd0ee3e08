import Mathlib.Algebra.BigOperators.Group.Finset.Piecewise
import Mathlib.Data.Fintype.Basic

/-!
# Counting the values of a finite family

The number of members of a finite family that satisfy a property, and the total weight of its
members, and how they change when one member is replaced.
-/

set_option autoImplicit false
set_option relaxedAutoImplicit false

namespace StudStuff.Lib

variable {ι α : Type} [Fintype ι] (property : α → Prop) [DecidablePred property]

/-- The number of members of a family that satisfy a property. -/
def countWhere (family : ι → α) : ℕ := (Finset.univ.filter fun i ↦ property (family i)).card

/-- Replacing one member. -/
theorem countWhere_update [DecidableEq ι] (family : ι → α) (i : ι) (value : α) :
    countWhere property (Function.update family i value) + (if property (family i) then 1 else 0) =
      countWhere property family + if property value then 1 else 0 := by
  have hsplit (family : ι → α) : countWhere property family =
      (if property (family i) then 1 else 0) +
        ∑ j ∈ Finset.univ.erase i, if property (family j) then 1 else 0 := by
    rw [countWhere, Finset.card_filter]
    exact (Finset.add_sum_erase _ _ (Finset.mem_univ i)).symm
  have hrest : (∑ j ∈ Finset.univ.erase i,
      if property (Function.update family i value j) then 1 else 0) =
        ∑ j ∈ Finset.univ.erase i, if property (family j) then 1 else 0 :=
    Finset.sum_congr rfl fun j hj ↦ by rw [Function.update_of_ne (Finset.ne_of_mem_erase hj)]
  rw [hsplit (Function.update family i value), hsplit family, hrest, Function.update_self]
  omega

/-- Replacing members in a way that the property does not see. -/
theorem countWhere_congr {family family' : ι → α}
    (h : ∀ i, property (family i) ↔ property (family' i)) :
    countWhere property family = countWhere property family' :=
  congrArg Finset.card (Finset.filter_congr fun i _ ↦ h i)

omit property [DecidablePred property] in
/-- The total weight of a family of which one member is replaced. -/
theorem sum_weight_update [DecidableEq ι] (weight : α → ℕ) (family : ι → α) (i : ι) (value : α) :
    ∑ j, weight (Function.update family i value j) + weight (family i) =
      ∑ j, weight (family j) + weight value := by
  have hrest : (∑ j ∈ Finset.univ.erase i, weight (Function.update family i value j)) =
      ∑ j ∈ Finset.univ.erase i, weight (family j) :=
    Finset.sum_congr rfl fun j hj ↦ by rw [Function.update_of_ne (Finset.ne_of_mem_erase hj)]
  have hsplit (family : ι → α) : weight (family i) +
      ∑ j ∈ Finset.univ.erase i, weight (family j) = ∑ j, weight (family j) :=
    Finset.add_sum_erase _ (fun j ↦ weight (family j)) (Finset.mem_univ i)
  rw [← hsplit (Function.update family i value), ← hsplit family, hrest, Function.update_self]
  omega

end StudStuff.Lib
