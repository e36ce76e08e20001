import Mathlib.Algebra.BigOperators.Group.Finset.Basic
import Mathlib.Logic.Function.Basic

/-!
# Tables with two indices

`set2 f a b v` is the table `f` with the entry at `(a, b)` replaced by `v`. A sum over a row of
which one entry changes changes as that entry does (`sum_eq_add_of_single`).
-/

namespace NetSim.Library

variable {α β γ : Type} [DecidableEq α] [DecidableEq β]

def set2 (f : α → β → γ) (a : α) (b : β) (v : γ) : α → β → γ :=
  fun a' b' => if a' = a ∧ b' = b then v else f a' b'

@[simp] theorem set2_self (f : α → β → γ) (a : α) (b : β) (v : γ) : set2 f a b v a b = v := by
  simp [set2]

theorem set2_of_ne {f : α → β → γ} {a a' : α} {b b' : β} {v : γ} (h : ¬ (a' = a ∧ b' = b)) :
    set2 f a b v a' b' = f a' b' := by
  simp [set2, h]

/-- Rows other than the written one are unchanged. -/
theorem set2_row_of_ne {f : α → β → γ} {a a' : α} {b : β} {v : γ} (h : a' ≠ a) :
    set2 f a b v a' = f a' := by
  ext b'
  exact set2_of_ne fun hab => h hab.1

/-- Two sums that differ at one index. -/
theorem sum_eq_add_of_single {xs : Finset α} {k : α} {f g : α → Nat} {d : Nat} (hk : k ∈ xs)
    (hat : f k = g k + d) (hoff : ∀ i, i ≠ k → f i = g i) :
    ∑ i ∈ xs, f i = ∑ i ∈ xs, g i + d := by
  have hrest : ∑ i ∈ xs.erase k, f i = ∑ i ∈ xs.erase k, g i :=
    Finset.sum_congr rfl fun i hi => hoff i (Finset.ne_of_mem_erase hi)
  rw [← Finset.add_sum_erase _ _ hk, ← Finset.add_sum_erase _ _ hk]
  omega

end NetSim.Library
