import Mathlib.Data.List.Nodup

/-!
# Round-robin selection

A pointer walks around `n` places. A selection scans the places from the pointer on, takes one of
them and moves the pointer right behind it. `Passing n u p vs` describes a stretch of selections
that never reached the place `u`: `vs` are the places taken, latest first, and `p` is the pointer
now. Every place taken lies behind `u` as seen from the pointer, so none of them is taken twice
before `u` (`Passing.next`), and there are fewer than `n` of them (`Passing.length_lt`).
-/

namespace NetSim.Library

variable {n p p' x u k m : Nat}

/-- How many places the scan from `p` passes before it reaches `x`. -/
def scanDist (n p x : Nat) : Nat := (x + (n - p % n)) % n

theorem scanDist_lt (hn : 0 < n) : scanDist n p x < n := Nat.mod_lt _ hn

theorem scanDist_congr (h : p % n = p' % n) : scanDist n p x = scanDist n p' x := by
  rw [scanDist, scanDist, h]

/-- The place at distance `k` from the pointer. -/
theorem scanDist_eq (hk : k < n) (h : (p + k) % n = x) : scanDist n p x = k := by
  have hp : p % n < n := Nat.mod_lt _ (by omega)
  have hsum : p + k + (n - p % n) = k + n * (p / n + 1) := by
    have hdiv := Nat.div_add_mod p n
    rw [Nat.mul_add, Nat.mul_one]
    omega
  rw [scanDist, ← h, Nat.mod_add_mod, hsum, Nat.add_mul_mod_self_left, Nat.mod_eq_of_lt hk]

theorem add_scanDist_mod (hx : x < n) : (p + scanDist n p x) % n = x := by
  have hp : p % n < n := Nat.mod_lt _ (by omega)
  have hsum : p + (x + (n - p % n)) = x + n * (p / n + 1) := by
    have hdiv := Nat.div_add_mod p n
    rw [Nat.mul_add, Nat.mul_one]
    omega
  rw [scanDist, Nat.add_mod_mod, hsum, Nat.add_mul_mod_self_left, Nat.mod_eq_of_lt hx]

/-! ## Moving the pointer -/

theorem scanDist_advance_of_le (hx : x < n) (hm : m ≤ scanDist n p x) :
    scanDist n (p + m) x = scanDist n p x - m := by
  have hlt : scanDist n p x < n := scanDist_lt (by omega)
  refine scanDist_eq (by omega) ?_
  have hsum : p + m + (scanDist n p x - m) = p + scanDist n p x := by omega
  rw [hsum, add_scanDist_mod hx]

theorem scanDist_advance_of_lt (hx : x < n) (hm : scanDist n p x < m) (hmn : m ≤ n) :
    scanDist n (p + m) x = scanDist n p x + n - m := by
  refine scanDist_eq (by omega) ?_
  have hsum : p + m + (scanDist n p x + n - m) = p + scanDist n p x + n := by omega
  rw [hsum, Nat.add_mod_right, add_scanDist_mod hx]

/-! ## A stretch of selections -/

/-- The places `vs` were taken, latest first, and none of the scans reached `u`. -/
structure Passing (n u p : Nat) (vs : List Nat) : Prop where
  behind : ∀ v ∈ vs, v < n ∧ scanDist n p u < scanDist n p v
  nodup : vs.Nodup
  room : vs.length + scanDist n p u < n

namespace Passing

variable {vs : List Nat}

theorem start (hn : 0 < n) : Passing n u p [] where
  behind := by simp
  nodup := List.nodup_nil
  room := by
    have hlt : scanDist n p u < n := scanDist_lt hn
    simpa using hlt

theorem length_lt (h : Passing n u p vs) : vs.length < n := by
  have hroom := h.room
  omega

theorem congr (h : Passing n u p vs) (hp : p % n = p' % n) : Passing n u p' vs where
  behind v hv := by
    rw [← scanDist_congr hp, ← scanDist_congr hp]
    exact h.behind v hv
  nodup := h.nodup
  room := by
    rw [← scanDist_congr hp]
    exact h.room

/-- One more selection of a place before `u`. -/
theorem next (h : Passing n u p vs) (hu : u < n) (hk : k < scanDist n p u) :
    Passing n u (((p + k) % n + 1) % n) ((p + k) % n :: vs) := by
  have hn : 0 < n := by omega
  have hroom := h.room
  have hv : (p + k) % n < n := Nat.mod_lt _ hn
  have hdist : scanDist n p ((p + k) % n) = k := scanDist_eq (by omega) rfl
  have hpointer : (p + (k + 1)) % n = ((p + k) % n + 1) % n % n := by
    rw [Nat.mod_mod, Nat.mod_add_mod, Nat.add_assoc]
  suffices hadvance : Passing n u (p + (k + 1)) ((p + k) % n :: vs) from hadvance.congr hpointer
  have htarget : scanDist n (p + (k + 1)) u = scanDist n p u - (k + 1) :=
    scanDist_advance_of_le hu hk
  refine ⟨fun v hmem => ?_, ?_, ?_⟩
  · rcases List.mem_cons.mp hmem with rfl | hold
    · -- the place just taken is now the last one of the scan
      have hself := scanDist_advance_of_lt (n := n) (p := p) (m := k + 1) hv (by omega) (by omega)
      refine ⟨hv, ?_⟩
      omega
    · obtain ⟨hvn, hbehind⟩ := h.behind v hold
      have hself := scanDist_advance_of_le (n := n) (p := p) (m := k + 1) hvn (by omega)
      refine ⟨hvn, ?_⟩
      omega
  · refine List.nodup_cons.mpr ⟨fun hold => ?_, h.nodup⟩
    have hbehind := (h.behind _ hold).2
    omega
  · rw [List.length_cons]
    omega

end Passing

end NetSim.Library
