import Mathlib.Logic.Relation

/-!
# Loops that need not end

A `while` loop whose body may end the program or not return. `loop turn fuel s` takes at most `fuel`
turns from the state `s`. A loop whose turns make a measure smaller and always return ends before
the measure is used up (`loop_ends`).
-/

namespace NetSim.Library

variable {σ : Type}

/-- What a turn does: the condition is false, the body returns, the body ends the program, or the
body does not return. -/
inductive Iteration (σ : Type)
  | exit
  | next (s : σ)
  | abort
  | hang

/-- How a loop ends. A loop that hangs has not ended for any amount of fuel. -/
inductive Outcome (σ : Type)
  | exited (s : σ)
  | aborted (s : σ)
  | running

def loop (turn : σ → Iteration σ) : Nat → σ → Outcome σ
  | 0, _ => .running
  | fuel + 1, s =>
    match turn s with
    | .exit => .exited s
    | .next s' => loop turn fuel s'
    | .abort => .aborted s
    | .hang => .running

/-- The body returns. -/
def Goes (turn : σ → Iteration σ) (s s' : σ) : Prop := turn s = .next s'

/-- The states at the head of the loop. -/
def Iterations (turn : σ → Iteration σ) : σ → σ → Prop := Relation.ReflTransGen (Goes turn)

variable {turn : σ → Iteration σ} {start s : σ}

/-- What a turn keeps holds whenever the condition is tested. -/
theorem Iterations.invariant {I : σ → Prop} (hturn : ∀ s s', I s → Goes turn s s' → I s')
    (h0 : I start) (h : Iterations turn start s) : I s := by
  induction h with
  | refl => exact h0
  | tail _ hgoes ih => exact hturn _ _ ih hgoes

/-- A loop ends when its turns keep an invariant under which they return and make the measure
smaller. -/
theorem loop_ends (I : σ → Prop) (measure : σ → Nat)
    (hturn : ∀ s s', I s → Goes turn s s' → I s' ∧ measure s' < measure s)
    (hhang : ∀ s, I s → turn s ≠ .hang) {fuel : Nat} (h0 : I s) (hfuel : measure s < fuel) :
    loop turn fuel s ≠ .running := by
  induction fuel generalizing s with
  | zero => omega
  | succ fuel ih =>
    unfold loop
    split
    · nofun
    · rename_i s' hgoes
      obtain ⟨hI, hless⟩ := hturn s s' h0 hgoes
      exact ih hI (by omega)
    · nofun
    · rename_i hstuck
      exact absurd hstuck (hhang s h0)

end NetSim.Library
