import Mathlib.Order.Basic

/-!
# Fuel

A loop without a known bound is run with fuel and stops with a distinguished error when the fuel
is used up. `FuelStable out f` says that a run which does not stop for that reason gives the
same result with any more fuel, so that its result is the result of the unbounded loop.
Sequencing keeps stability.
-/

namespace NetSim.Library

variable {ε α β : Type} {out : ε}

/-- Results other than the error `out` are not changed by more fuel. -/
def FuelStable (out : ε) (f : Nat → Except ε α) : Prop :=
  ∀ ⦃fuel : Nat⦄, f fuel ≠ .error out → ∀ k, f (fuel + k) = f fuel

namespace FuelStable

theorem const (x : Except ε α) : FuelStable out fun _ => x := fun _ _ _ => rfl

theorem bind {f : Nat → Except ε α} {g : α → Nat → Except ε β} (hf : FuelStable out f)
    (hg : ∀ a, FuelStable out (g a)) : FuelStable out fun fuel => f fuel >>= fun a => g a fuel := by
  intro fuel h k
  have hfk : f fuel ≠ .error out := by
    intro hout
    simp only [hout] at h
    exact h rfl
  simp only [hf hfk k]
  cases hres : f fuel with
  | error e => rfl
  | ok a =>
    simp only [hres] at h
    exact hg a h k

/-- Two runs that both end agree. -/
theorem agree {f : Nat → Except ε α} (hf : FuelStable out f) {m n : Nat} {x y : Except ε α}
    (hm : f m = x) (hn : f n = y) (hx : x ≠ .error out) (hy : y ≠ .error out) : x = y := by
  subst hm hn
  rcases Nat.le_total m n with h | h
  · obtain ⟨k, rfl⟩ := Nat.exists_eq_add_of_le h
    exact (hf hx k).symm
  · obtain ⟨k, rfl⟩ := Nat.exists_eq_add_of_le h
    exact hf hy k

end FuelStable

end NetSim.Library
