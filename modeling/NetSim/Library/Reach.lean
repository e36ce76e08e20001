import Mathlib.Order.Basic

/-!
# Runs of a labelled transition system

`Reach R ok start` holds of the states that a run from `start` reaches when every step is a
transition of `R` and its action meets `ok` in the state it is taken from. The predicate
`ok` carries what is assumed of the environment; `fun _ _ => True` assumes nothing. An
invariant of the steps is an invariant of the runs (`Reach.invariant`), and a finite list of
actions that a partial step function accepts is a run (`Reach.of_run`).
-/

namespace NetSim.Library

variable {σ α : Type}

/-- The states reached from `start` by transitions of `R` whose actions meet `ok`. -/
inductive Reach (R : σ → α → σ → Prop) (ok : σ → α → Prop) (start : σ) : σ → Prop
  | start : Reach R ok start start
  | next {s s' : σ} (a : α) (prior : Reach R ok start s) (hok : ok s a) (hstep : R s a s') :
      Reach R ok start s'

/-- No assumption on the environment. -/
def Free (_ : σ) (_ : α) : Prop := True

instance (s : σ) (a : α) : Decidable (Free s a) := .isTrue trivial

namespace Reach

variable {R : σ → α → σ → Prop} {ok ok' : σ → α → Prop} {start s : σ}

/-- What holds at the start and survives every step of a run holds in every reached state.
The step may use that its source state is itself reached. -/
theorem invariant (I : σ → Prop) (h0 : I start)
    (hstep : ∀ s a s', Reach R ok start s → I s → ok s a → R s a s' → I s')
    (h : Reach R ok start s) : I s := by
  induction h with
  | start => exact h0
  | next a prior hok hR ih => exact hstep _ a _ prior ih hok hR

/-- A run goes on where another one ended. -/
theorem trans {t : σ} (h : Reach R ok start s) (h' : Reach R ok s t) : Reach R ok start t := by
  induction h' with
  | start => exact h
  | next a _ hok hR ih => exact .next a ih hok hR

/-- Fewer assumptions allow more runs. -/
theorem mono (hok : ∀ s a, ok s a → ok' s a) (h : Reach R ok start s) : Reach R ok' start s := by
  induction h with
  | start => exact .start
  | next a _ ha hR ih => exact .next a ih (hok _ a ha) hR

/-- Two conditions that agree wherever `J` holds allow the same runs when they keep `J`. -/
theorem congr_of_invariant (J : σ → Prop) (hJ0 : J start)
    (hJ : ∀ s a s', R s a s' → J s → ok s a → J s') (hiff : ∀ s a, J s → (ok s a ↔ ok' s a)) :
    Reach R ok start s ↔ Reach R ok' start s := by
  have hok : ∀ {s}, Reach R ok start s → J s := fun h =>
    h.invariant J hJ0 fun s a s' _ hs ha hR => hJ s a s' hR hs ha
  have hok' : ∀ {s}, Reach R ok' start s → J s := fun h =>
    h.invariant J hJ0 fun s a s' _ hs ha hR => hJ s a s' hR hs ((hiff s a hs).mpr ha)
  constructor
  · intro h
    induction h with
    | start => exact .start
    | next a prior ha hR ih => exact .next a ih ((hiff _ a (hok prior)).mp ha) hR
  · intro h
    induction h with
    | start => exact .start
    | next a prior ha hR ih => exact .next a ih ((hiff _ a (hok' prior)).mpr ha) hR

/-- When the condition of a step is exactly what it needs to keep a property that, once lost, stays
lost, the runs that meet the condition are exactly the runs that end with the property. `J` is an
invariant of these runs. -/
theorem iff_of_step_iff (I J : σ → Prop) (hI0 : I start) (hJ0 : J start)
    (hlost : ∀ s a s', R s a s' → I s' → I s)
    (hkeep : ∀ s a s', R s a s' → I s → J s → (I s' ↔ ok s a))
    (hJ : ∀ s a s', R s a s' → I s → J s → I s' → J s') :
    Reach R ok start s ↔ Reach R Free start s ∧ I s := by
  constructor
  · intro h
    have hIJ : I s ∧ J s := by
      refine h.invariant (fun s => I s ∧ J s) ⟨hI0, hJ0⟩ fun s a s' _ hs hok hR => ?_
      have hI' := (hkeep s a s' hR hs.1 hs.2).mpr hok
      exact ⟨hI', hJ s a s' hR hs.1 hs.2 hI'⟩
    exact ⟨h.mono fun _ _ _ => trivial, hIJ.1⟩
  · rintro ⟨h, hI⟩
    suffices hs : Reach R ok start s ∧ J s from hs.1
    induction h with
    | start => exact ⟨.start, hJ0⟩
    | next a _ _ hR ih =>
      have hIs := hlost _ a _ hR hI
      obtain ⟨hreach, hJs⟩ := ih hIs
      exact ⟨.next a hreach ((hkeep _ a _ hR hIs hJs).mp hI) hR, hJ _ a _ hR hIs hJs hI⟩

/-- When the condition of a step is exactly what it needs to keep a property, the runs that meet the
condition are exactly the runs whose states all have the property. `J` is an invariant of these
runs. -/
theorem iff_of_keeps (I J : σ → Prop) (hI0 : I start) (hJ0 : J start)
    (hkeep : ∀ s a s', R s a s' → I s → J s → (I s' ↔ ok s a))
    (hJ : ∀ s a s', R s a s' → I s → J s → I s' → J s') :
    (Reach R ok start s ↔ Reach R (fun s a => ∀ s', R s a s' → I s') start s) ∧
      (Reach R ok start s → I s) := by
  have hok : ∀ {s}, Reach R ok start s → I s ∧ J s := fun h =>
    h.invariant (fun s => I s ∧ J s) ⟨hI0, hJ0⟩ fun s a s' _ hs ha hR =>
      have hI' := (hkeep s a s' hR hs.1 hs.2).mpr ha
      ⟨hI', hJ s a s' hR hs.1 hs.2 hI'⟩
  have hall : ∀ {s}, Reach R (fun s a => ∀ s', R s a s' → I s') start s → I s ∧ J s := fun h =>
    h.invariant (fun s => I s ∧ J s) ⟨hI0, hJ0⟩ fun s a s' _ hs ha hR =>
      ⟨ha s' hR, hJ s a s' hR hs.1 hs.2 (ha s' hR)⟩
  refine ⟨⟨fun h => ?_, fun h => ?_⟩, fun h => (hok h).1⟩
  · induction h with
    | start => exact .start
    | next a prior ha hR ih =>
      have hs := hok prior
      exact .next a ih (fun s' hR' => (hkeep _ a s' hR' hs.1 hs.2).mpr ha) hR
  · induction h with
    | start => exact .start
    | next a prior ha hR ih =>
      have hs := hall prior
      exact .next a ih ((hkeep _ a _ hR hs.1 hs.2).mp (ha _ hR)) hR

end Reach

/-! ## Finite runs of a step function -/

/-- The transitions of a partial step function. -/
def Steps (step : σ → α → Option σ) (s : σ) (a : α) (s' : σ) : Prop := step s a = some s'

/-- Take the actions of a list in order, checking `ok` before each of them. -/
def run (step : σ → α → Option σ) (ok : σ → α → Prop) [∀ s a, Decidable (ok s a)] :
    List α → σ → Option σ
  | [], s => some s
  | a :: as, s => if ok s a then (step s a).bind (run step ok as) else none

/-- A step that runs a computation which may fail. -/
theorem ok_of_toOption {ε ρ : Type} {r : Except ε ρ} {x : ρ} (h : r.toOption = some x) :
    r = .ok x := by
  cases r with
  | error e => cases h
  | ok y =>
    cases h
    rfl

theorem Reach.of_run_from {step : σ → α → Option σ} {ok : σ → α → Prop}
    [∀ s a, Decidable (ok s a)] {start s s' : σ} {as : List α}
    (h : Reach (Steps step) ok start s) (hrun : run step ok as s = some s') :
    Reach (Steps step) ok start s' := by
  induction as generalizing s with
  | nil =>
    cases hrun
    exact h
  | cons a as ih =>
    simp only [run] at hrun
    split at hrun
    · rename_i hok
      obtain ⟨t, ht, hrest⟩ := Option.bind_eq_some_iff.mp hrun
      exact ih (.next a h hok ht) hrest
    · cases hrun

/-- A finite list of actions that runs through gives a reached state with every property
that evaluates to true there. -/
theorem Reach.of_run (step : σ → α → Option σ) (ok : σ → α → Prop)
    [∀ s a, Decidable (ok s a)] (start : σ) (as : List α) (p : σ → Bool)
    (h : (run step ok as start).map p = some true) :
    ∃ s, Reach (Steps step) ok start s ∧ p s = true := by
  obtain ⟨s, hs, hp⟩ := Option.map_eq_some_iff.mp h
  exact ⟨s, .of_run_from .start hs, hp⟩

end NetSim.Library
