import Mathlib.Algebra.BigOperators.Group.Finset.Basic
import Mathlib.Algebra.Order.BigOperators.Group.Finset
import Mathlib.Data.Fintype.BigOperators

/-!
# Sums that change in one place

A measure that is the sum of the contributions of finitely many places, and a step that changes the
contribution of one of them.
-/

namespace NetSim.Library

variable {ι : Type} [DecidableEq ι]

/-- The sum changes by as much as the contribution of the one place `i`. -/
theorem sum_le_sum_of_one {s : Finset ι} {f g : ι → Nat} {i : ι} (hi : i ∈ s) {k m : Nat}
    (hother : ∀ j, j ≠ i → f j ≤ g j) (hone : f i + k ≤ g i + m) :
    ∑ j ∈ s, f j + k ≤ ∑ j ∈ s, g j + m := by
  have hrest : ∑ j ∈ s.erase i, f j ≤ ∑ j ∈ s.erase i, g j :=
    Finset.sum_le_sum fun j hj => hother j (Finset.ne_of_mem_erase hj)
  rw [← Finset.add_sum_erase s f hi, ← Finset.add_sum_erase s g hi]
  omega

/-- The sum of a family that has been updated in one place. -/
theorem sum_comp_update {α : Type} {s : Finset ι} (f : α → Nat) (x : ι → α) {i : ι} (hi : i ∈ s)
    (v : α) : ∑ j ∈ s, f (Function.update x i v j) + f (x i) = ∑ j ∈ s, f (x j) + f v := by
  have hother (j : ι) (hj : j ≠ i) : Function.update x i v j = x j := Function.update_of_ne hj v x
  have hone : Function.update x i v i = v := Function.update_self i v x
  apply le_antisymm
  · refine sum_le_sum_of_one hi (fun j hj => by rw [hother j hj]) ?_
    rw [hone, Nat.add_comm]
  · refine sum_le_sum_of_one hi (fun j hj => by rw [hother j hj]) ?_
    rw [hone, Nat.add_comm]

end NetSim.Library
