import Mathlib.Algebra.Order.Group.Nat
import Mathlib.Data.Nat.Basic
import Mathlib.Logic.Function.Basic

/-!
# Bit fields

A number is cut into fields by a list of their names, the highest field first. `layout` gives the
number of bits of all fields and the position of each; `extract` reads a field and `pack` writes
all of them. When no name is repeated the two are inverse to each other on the numbers that have no
bit above the fields (`extract_pack`, `pack_extract`).
-/

namespace NetSim.Library

variable {κ : Type} [DecidableEq κ] (width : κ → Nat)

/-- The number of bits, and the position of each field. -/
def layout : List κ → Nat × (κ → Nat)
  | [] => (0, fun _ => 0)
  | k :: ks =>
    let r := layout ks
    (r.1 + width k, Function.update r.2 k r.1)

/-- The value of the field `k` of `n`. -/
def extract (ks : List κ) (k : κ) (n : Nat) : Nat :=
  n / 2 ^ (layout width ks).2 k % 2 ^ width k

/-- The number whose fields are given by `v`. -/
def pack (v : κ → Nat) : List κ → Nat
  | [] => 0
  | k :: ks => v k * 2 ^ (layout width ks).1 + pack v ks

variable {width} {v : κ → Nat} {k : κ} {ks : List κ}

@[simp] theorem layout_cons_total : (layout width (k :: ks)).1 = (layout width ks).1 + width k :=
  rfl

@[simp] theorem layout_cons_self : (layout width (k :: ks)).2 k = (layout width ks).1 :=
  Function.update_self ..

theorem layout_cons_of_ne {k' : κ} (h : k' ≠ k) :
    (layout width (k :: ks)).2 k' = (layout width ks).2 k' :=
  Function.update_of_ne h ..

/-- A field ends below the sum of the widths. -/
theorem layout_pos_add_width (hk : k ∈ ks) :
    (layout width ks).2 k + width k ≤ (layout width ks).1 := by
  induction ks with
  | nil => simp at hk
  | cons k' ks ih =>
    by_cases heq : k = k'
    · subst heq
      rw [layout_cons_self, layout_cons_total]
    · have hrest := ih (List.mem_of_ne_of_mem heq hk)
      rw [layout_cons_of_ne heq, layout_cons_total]
      omega

/-- A field does not see the bits above the fields. -/
theorem extract_mod (hk : k ∈ ks) (n : Nat) :
    extract width ks k (n % 2 ^ (layout width ks).1) = extract width ks k n := by
  have hle : (layout width ks).2 k + width k ≤ (layout width ks).1 := layout_pos_add_width hk
  unfold extract
  apply Nat.eq_of_testBit_eq
  intro i
  simp only [Nat.testBit_mod_two_pow, Nat.testBit_div_two_pow]
  by_cases hi : i < width k
  · simp [hi, show i + (layout width ks).2 k < (layout width ks).1 by omega]
  · simp [hi]

theorem pack_lt (hv : ∀ k ∈ ks, v k < 2 ^ width k) : pack width v ks < 2 ^ (layout width ks).1 := by
  induction ks with
  | nil => simp [pack, layout]
  | cons k ks ih =>
    have hrest := ih fun k' hk' => hv k' (List.mem_cons_of_mem _ hk')
    have hk := hv k List.mem_cons_self
    rw [pack, layout_cons_total, Nat.pow_add, Nat.mul_comm (2 ^ _)]
    calc v k * 2 ^ (layout width ks).1 + pack width v ks
        < v k * 2 ^ (layout width ks).1 + 2 ^ (layout width ks).1 := by omega
      _ = (v k + 1) * 2 ^ (layout width ks).1 := (Nat.succ_mul ..).symm
      _ ≤ 2 ^ width k * 2 ^ (layout width ks).1 := Nat.mul_le_mul_right _ hk

/-- Reading a field of a packed number. -/
theorem extract_pack (hnodup : ks.Nodup) (hv : ∀ k ∈ ks, v k < 2 ^ width k) (hk : k ∈ ks) :
    extract width ks k (pack width v ks) = v k := by
  induction ks with
  | nil => simp at hk
  | cons k' ks ih =>
    have hrest : ∀ k ∈ ks, v k < 2 ^ width k := fun x hx => hv x (List.mem_cons_of_mem _ hx)
    have hlt := pack_lt hrest
    by_cases heq : k = k'
    · subst heq
      rw [extract, layout_cons_self, pack, Nat.mul_comm, Nat.mul_add_div (Nat.two_pow_pos _),
        Nat.div_eq_of_lt hlt, Nat.add_zero, Nat.mod_eq_of_lt (hv k List.mem_cons_self)]
    · have hmem := List.mem_of_ne_of_mem heq hk
      -- the upper fields are multiples of the capacity of the lower ones
      have hmod : pack width v (k' :: ks) % 2 ^ (layout width ks).1 = pack width v ks := by
        rw [pack, Nat.mul_comm, Nat.mul_add_mod, Nat.mod_eq_of_lt hlt]
      have hfield := ih (List.nodup_cons.mp hnodup).2 hrest hmem
      rw [← hfield, ← hmod, extract_mod hmem, extract, extract, layout_cons_of_ne heq]

/-- Packing all the fields of a number gives back its low bits. -/
theorem pack_extract (hnodup : ks.Nodup) (n : Nat) :
    pack width (fun k => extract width ks k n) ks = n % 2 ^ (layout width ks).1 := by
  suffices h : ∀ u : κ → Nat, (∀ k ∈ ks, u k = extract width ks k n) →
      pack width u ks = n % 2 ^ (layout width ks).1 from h _ fun _ _ => rfl
  intro u hu
  induction ks with
  | nil => simp [pack, layout, Nat.mod_one]
  | cons k ks ih =>
    obtain ⟨hk, hks⟩ := List.nodup_cons.mp hnodup
    have hrest : pack width u ks = n % 2 ^ (layout width ks).1 := by
      refine ih hks fun x hx => ?_
      have hne : x ≠ k := fun h => hk (h ▸ hx)
      rw [hu x (List.mem_cons_of_mem _ hx), extract, extract, layout_cons_of_ne hne]
    rw [pack, hrest, hu k List.mem_cons_self, extract, layout_cons_self, layout_cons_total,
      Nat.pow_add, Nat.mod_mul, Nat.mul_comm (2 ^ _)]
    omega

end NetSim.Library
