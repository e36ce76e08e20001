import Mathlib.Order.Basic

/-!
# Loops with a guard

A `for` loop is a fold of its body over the values of the loop variable. `Along body guard xs s`
says that the guard holds before every iteration of the loop that starts in `s`. An invariant
that the body keeps under the guard holds after the loop (`Along.foldl`). A loop whose body may
fail is a fold in `Except` or `Option` (`foldlM_relates`, `foldlM_returns`).
-/

namespace NetSim.Library

variable {σ ι : Type} {body : σ → ι → σ} {guard guard' : σ → ι → Prop} {xs ys : List ι} {s : σ}

/-- `guard` holds before every iteration of the loop over `xs` from the state `s`. -/
def Along (body : σ → ι → σ) (guard : σ → ι → Prop) : List ι → σ → Prop
  | [], _ => True
  | x :: xs, s => guard s x ∧ Along body guard xs (body s x)

instance decidableAlong [∀ s x, Decidable (guard s x)] :
    ∀ (xs : List ι) (s : σ), Decidable (Along body guard xs s)
  | [], _ => .isTrue trivial
  | x :: xs, s =>
    have := decidableAlong xs (body s x)
    inferInstanceAs (Decidable (guard s x ∧ Along body guard xs (body s x)))

/-- The loop rule. The iteration may use that its loop variable ranges over `xs`. -/
theorem Along.foldl (I : σ → Prop)
    (hbody : ∀ s x, x ∈ xs → I s → guard s x → I (body s x))
    (h0 : I s) (h : Along body guard xs s) : I (xs.foldl body s) := by
  induction xs generalizing s with
  | nil => exact h0
  | cons x xs ih =>
    refine ih (fun s y hy => hbody s y (List.mem_cons_of_mem _ hy)) ?_ h.2
    exact hbody s x List.mem_cons_self h0 h.1

/-- When the guard is exactly what an iteration needs to keep the property `I`, the guards along
the loop are exactly what the loop needs. `J` is an invariant of the loop. -/
theorem foldl_iff_along_of_invariant (I J : σ → Prop) (hJ : ∀ s x, J s → J (body s x))
    (hbody : ∀ s x, J s → (I (body s x) ↔ I s ∧ guard s x)) (h0 : J s) :
    I (xs.foldl body s) ↔ I s ∧ Along body guard xs s := by
  induction xs generalizing s with
  | nil => simp [Along]
  | cons x xs ih =>
    rw [List.foldl_cons, ih (hJ s x h0), hbody s x h0, Along, and_assoc]

theorem foldl_iff_along (I : σ → Prop) (hbody : ∀ s x, I (body s x) ↔ I s ∧ guard s x) :
    I (xs.foldl body s) ↔ I s ∧ Along body guard xs s :=
  foldl_iff_along_of_invariant I (fun _ => True) (fun _ _ _ => trivial) (fun s x _ => hbody s x)
    trivial

/-- The loop rule without a guard. -/
theorem foldl_invariant (I : σ → Prop) (hbody : ∀ s x, x ∈ xs → I s → I (body s x))
    (h0 : I s) : I (xs.foldl body s) := by
  induction xs generalizing s with
  | nil => exact h0
  | cons x xs ih =>
    exact ih (fun s y hy => hbody s y (List.mem_cons_of_mem _ hy))
      (hbody s x List.mem_cons_self h0)

/-- The loop rule with the values already visited. -/
theorem foldl_prefix_invariant (I : List ι → σ → Prop)
    (hbody : ∀ seen x s, x ∈ xs → I seen s → I (seen ++ [x]) (body s x)) (h0 : I [] s) :
    I xs (xs.foldl body s) := by
  suffices h : ∀ seen t, I seen t → I (seen ++ xs) (xs.foldl body t) by
    simpa using h [] s h0
  clear h0
  induction xs with
  | nil =>
    intro seen s h
    simpa using h
  | cons x xs ih =>
    intro seen s h
    have hrest := ih (fun seen y s hy => hbody seen y s (List.mem_cons_of_mem _ hy))
      (seen ++ [x]) (body s x) (hbody seen x s List.mem_cons_self h)
    simpa using hrest

/-! ## Loops that may fail -/

/-- What every iteration relates, a loop that returns relates. -/
theorem foldlM_relates {ε : Type} {body : σ → ι → Except ε σ} (R : σ → σ → Prop)
    (hrefl : ∀ s, R s s) (htrans : ∀ s t u, R s t → R t u → R s u)
    (hbody : ∀ s x t, body s x = .ok t → R s t) {t : σ} (h : xs.foldlM body s = .ok t) :
    R s t := by
  induction xs generalizing s with
  | nil =>
    cases h
    exact hrefl _
  | cons x xs ih =>
    rw [List.foldlM_cons] at h
    cases hfirst : body s x with
    | error e =>
      rw [hfirst] at h
      cases h
    | ok u =>
      rw [hfirst] at h
      exact htrans _ _ _ (hbody s x u hfirst) (ih h)

/-- A loop returns when every iteration does. The invariant may speak about the iterations that have
been done. -/
theorem foldlM_returns {body : σ → ι → Option σ} (I : List ι → σ → Prop)
    (hbody : ∀ done s x, I done s → ∃ t, body s x = some t ∧ I (done ++ [x]) t) (h : I [] s) :
    ∃ t, xs.foldlM body s = some t ∧ I xs t := by
  have hfrom : ∀ done s, I done s → ∃ t, xs.foldlM body s = some t ∧ I (done ++ xs) t := by
    induction xs with
    | nil =>
      intro done s hs
      refine ⟨s, rfl, ?_⟩
      rw [List.append_nil]
      exact hs
    | cons x xs ih =>
      intro done s hs
      obtain ⟨u, hfirst, hu⟩ := hbody done s x hs
      obtain ⟨t, hrest, ht⟩ := ih _ u hu
      refine ⟨t, ?_, ?_⟩
      · rw [List.foldlM_cons, hfirst]
        exact hrest
      · rw [List.append_cons]
        exact ht
  exact hfrom [] s h

end NetSim.Library
