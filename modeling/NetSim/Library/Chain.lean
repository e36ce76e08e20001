import Mathlib.Data.List.Sort
import Mathlib.Logic.Function.Basic

/-!
# Singly linked lists in a pointer heap

`Chain next p xs` says that following `next` from the pointer `p` visits exactly the cells
`xs` and then ends at the null pointer. The heap is a function, so a cell that is not on
the chain may hold any stale pointer. A chain determines its list (`Chain.unique`), writes
to cells off the chain do not disturb it (`Chain.update`), and one write to a cell on the
chain replaces everything behind that cell (`Chain.splice`).
-/

namespace NetSim.Library

variable {ι : Type}

/-- The cells `xs` are linked by `next`, in this order, from `p` to the null pointer. -/
def Chain (next : ι → Option ι) : Option ι → List ι → Prop
  | p, [] => p = none
  | p, x :: xs => p = some x ∧ Chain next (next x) xs

namespace Chain

variable {next next' : ι → Option ι} {p : Option ι}

@[simp] theorem nil_iff : Chain next p [] ↔ p = none := Iff.rfl

@[simp] theorem cons_iff {x : ι} {xs : List ι} :
    Chain next p (x :: xs) ↔ p = some x ∧ Chain next (next x) xs := Iff.rfl

theorem head {xs : List ι} (h : Chain next p xs) : p = xs.head? := by
  cases xs with
  | nil => exact h
  | cons x xs => exact h.1

/-- One pointer heads at most one chain. -/
theorem unique {xs ys : List ι} (hx : Chain next p xs) (hy : Chain next p ys) : xs = ys := by
  induction xs generalizing p ys with
  | nil =>
    have hp : p = none := hx
    cases ys with
    | nil => rfl
    | cons y ys => rw [hp] at hy; cases hy.1
  | cons x xs ih =>
    obtain ⟨rfl, hrest⟩ := hx
    cases ys with
    | nil => cases (show some x = none from hy)
    | cons y ys =>
      obtain ⟨hxy, hrest'⟩ := hy
      cases hxy
      rw [ih hrest hrest']

theorem congr {xs : List ι} (hAgree : ∀ x ∈ xs, next' x = next x) (h : Chain next p xs) :
    Chain next' p xs := by
  induction xs generalizing p with
  | nil => exact h
  | cons x xs ih =>
    refine ⟨h.1, ?_⟩
    rw [hAgree x List.mem_cons_self]
    exact ih (fun y hy => hAgree y (List.mem_cons_of_mem _ hy)) h.2

/-- A write to a cell off the chain leaves the chain alone. -/
theorem update [DecidableEq ι] {xs : List ι} {e : ι} (v : Option ι) (he : e ∉ xs)
    (h : Chain next p xs) : Chain (Function.update next e v) p xs := by
  refine h.congr fun x hx => ?_
  have hne : x ≠ e := by
    rintro rfl
    exact he hx
  rw [Function.update_of_ne hne]

/-- A chain that runs through `xs` continues as a chain behind it. -/
theorem drop {xs : List ι} {z : ι} {ys : List ι} (h : Chain next p (xs ++ z :: ys)) :
    Chain next (next z) ys := by
  induction xs generalizing p with
  | nil => exact h.2
  | cons x xs ih => exact ih h.2

theorem of_append {xs ys : List ι} (h : Chain next p (xs ++ ys)) : ∃ p', Chain next p' ys := by
  induction xs generalizing p with
  | nil => exact ⟨p, h⟩
  | cons x xs ih => exact ih h.2

/-- A heap that agrees with the old one in front of the cell `z` keeps the chain up to `z`
and continues with what it links behind `z`. -/
theorem splice {xs ys zs : List ι} {z : ι} (h : Chain next p (xs ++ z :: ys))
    (hAgree : ∀ x ∈ xs, next' x = next x) (hz : Chain next' (next' z) zs) :
    Chain next' p (xs ++ z :: zs) := by
  induction xs generalizing p with
  | nil => exact ⟨h.1, hz⟩
  | cons x xs ih =>
    refine ⟨h.1, ?_⟩
    rw [hAgree x List.mem_cons_self]
    exact ih h.2 fun y hy => hAgree y (List.mem_cons_of_mem _ hy)

/-- Relinking a cell past its successor takes the successor off the chain. -/
theorem unlink [DecidableEq ι] {xs ys : List ι} {z e : ι} (h : Chain next p (xs ++ z :: e :: ys))
    (hnodup : (xs ++ z :: e :: ys).Nodup) :
    Chain (Function.update next z (next e)) p (xs ++ z :: ys) := by
  obtain ⟨-, hcons, hapart⟩ := List.nodup_append.mp hnodup
  refine h.splice (fun x hx => Function.update_of_ne ?_ _ _) ?_
  · intro hxz
    exact hapart x hx z List.mem_cons_self hxz
  · rw [Function.update_self]
    refine h.drop.2.update _ fun hm => ?_
    exact (List.nodup_cons.mp hcons).1 (List.mem_cons_of_mem _ hm)

/-- A chain follows the pointers of its cells. -/
theorem next_mem {xs : List ι} {x y : ι} (h : Chain next p xs) (hx : x ∈ xs)
    (hy : next x = some y) : y ∈ xs := by
  induction xs generalizing p with
  | nil => cases hx
  | cons z xs ih =>
    rcases List.mem_cons.mp hx with rfl | hx
    · have hhead := h.2.head
      rw [hy] at hhead
      exact List.mem_cons_of_mem _ (List.mem_of_mem_head? (Option.mem_def.mpr hhead.symm))
    · exact List.mem_cons_of_mem _ (ih h.2 hx)

/-- In front of the cell `z` the pointers lead to `z` or stay in front of it. -/
theorem next_of_mem_front {xs ys : List ι} {x z : ι} (h : Chain next p (xs ++ z :: ys))
    (hx : x ∈ xs) : ∃ y, next x = some y ∧ (y = z ∨ y ∈ xs) := by
  induction xs generalizing p with
  | nil => cases hx
  | cons w xs ih =>
    rcases List.mem_cons.mp hx with rfl | hx
    · cases xs with
      | nil => exact ⟨z, h.2.1, Or.inl rfl⟩
      | cons v xs => exact ⟨v, h.2.1, Or.inr (by simp)⟩
    · obtain ⟨y, hy, hcases⟩ := ih h.2 hx
      exact ⟨y, hy, hcases.imp_right (List.mem_cons_of_mem _)⟩

/-- Every cell behind `x` is the successor of `x` or of a cell behind it. -/
theorem exists_prev {xs : List ι} {x e : ι} (h : Chain next (next x) xs) (he : e ∈ xs) :
    ∃ y ∈ x :: xs, next y = some e := by
  induction xs generalizing x with
  | nil => cases he
  | cons z xs ih =>
    rcases List.mem_cons.mp he with rfl | he
    · exact ⟨x, List.mem_cons_self, h.1⟩
    · obtain ⟨y, hy, hnext⟩ := ih h.2 he
      exact ⟨y, List.mem_cons_of_mem _ hy, hnext⟩

/-- A chain ends, so no cell of it lies in a set that the pointers never leave. -/
theorem not_closed {xs : List ι} {x : ι} (S : ι → Prop) (h : Chain next p xs) (hx : x ∈ xs)
    (hS : S x) (hclosed : ∀ y, S y → ∃ z, next y = some z ∧ S z) : False := by
  induction xs generalizing p x with
  | nil => cases hx
  | cons y xs ih =>
    rcases List.mem_cons.mp hx with rfl | hx
    · obtain ⟨z, hz, hSz⟩ := hclosed x hS
      have hhead := h.2.head
      rw [hz] at hhead
      exact ih h.2 (List.mem_of_mem_head? (Option.mem_def.mpr hhead.symm)) hSz
    · exact ih h.2 hx hS

/-- A chain of a heap that agrees with the old one in front of the cell `z` still comes to `z`. -/
theorem mem_of_agree {xs ys zs : List ι} {z : ι} (h : Chain next p (xs ++ z :: ys))
    (hAgree : ∀ x ∈ xs, next' x = next x) (h' : Chain next' p zs) : z ∈ zs := by
  induction xs generalizing p zs with
  | nil =>
    cases zs with
    | nil => exact absurd (h.1.symm.trans h') (by simp)
    | cons y zs =>
      have hzy := h.1.symm.trans h'.1
      cases hzy
      exact List.mem_cons_self
  | cons x xs ih =>
    cases zs with
    | nil => exact absurd (h.1.symm.trans h') (by simp)
    | cons y zs =>
      have hxy := h.1.symm.trans h'.1
      cases hxy
      have hrest := h'.2
      rw [hAgree x List.mem_cons_self] at hrest
      exact List.mem_cons_of_mem _ (ih h.2 (fun w hw => hAgree w (List.mem_cons_of_mem _ hw)) hrest)

end Chain

end NetSim.Library
