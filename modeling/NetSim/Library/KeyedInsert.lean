import Mathlib.Data.List.Sort
import Mathlib.Data.List.Nodup

/-!
# Insertion before all entries of equal key

`keyedInsert key e l` puts `e` into the list `l` before the first entry whose key is not
smaller. On a list sorted by key this is before all entries of equal key, so that entries of
one key come in the order of latest insertion.
-/

namespace NetSim.Library

variable {ι κ : Type} [LinearOrder κ]

/-- Insert `e` before the first entry whose key is at least the key of `e`. -/
def keyedInsert (key : ι → κ) (e : ι) (l : List ι) : List ι :=
  l.orderedInsert (fun a b => key a ≤ key b) e

/-- Sorted by key, equal keys allowed. -/
def KeySorted (key : ι → κ) (l : List ι) : Prop := l.Pairwise fun a b => key a ≤ key b

variable {key key' : ι → κ} {e : ι} {l before after : List ι}

/-- The place of an insertion: behind smaller keys, in front of the first key that is not. -/
theorem keyedInsert_append (hBefore : ∀ x ∈ before, key x < key e)
    (hAfter : ∀ x ∈ after.head?, key e ≤ key x) :
    keyedInsert key e (before ++ after) = before ++ e :: after := by
  induction before with
  | nil =>
    cases after with
    | nil => rfl
    | cons x after =>
      have hx : key e ≤ key x := hAfter x rfl
      simp [keyedInsert, hx]
  | cons x before ih =>
    have hx : ¬ key e ≤ key x := not_le_of_gt (hBefore x List.mem_cons_self)
    have hrest := ih fun y hy => hBefore y (List.mem_cons_of_mem _ hy)
    simp only [keyedInsert] at hrest
    simp [keyedInsert, hx, hrest]

theorem mem_keyedInsert {x : ι} : x ∈ keyedInsert key e l ↔ x = e ∨ x ∈ l :=
  List.mem_orderedInsert _

/-- A filter that drops the inserted entry does not see the insertion. -/
theorem filter_keyedInsert {p : ι → Bool} (hp : p e = false) :
    (keyedInsert key e l).filter p = l.filter p := by
  induction l with
  | nil => simp [keyedInsert, hp]
  | cons x l ih =>
    unfold keyedInsert at ih ⊢
    by_cases hx : key e ≤ key x
    · simp [hx, hp]
    · simp [hx, List.filter_cons, ih]

theorem KeySorted.congr (hl : ∀ x ∈ l, key' x = key x) (h : KeySorted key l) :
    KeySorted key' l := by
  refine List.Pairwise.imp_of_mem ?_ h
  intro a b ha hb hab
  rwa [hl a ha, hl b hb]

/-- A sorted list splits at every key into the smaller entries and the rest. -/
theorem KeySorted.split (h : KeySorted key l) (e : ι) :
    ∃ before after, l = before ++ after ∧ (∀ x ∈ before, key x < key e) ∧
      ∀ x ∈ after, key e ≤ key x := by
  induction l with
  | nil => exact ⟨[], [], rfl, by simp, by simp⟩
  | cons x l ih =>
    obtain ⟨hx, hl⟩ := List.pairwise_cons.mp h
    by_cases hlt : key x < key e
    · obtain ⟨before, after, rfl, hb, ha⟩ := ih hl
      refine ⟨x :: before, after, rfl, ?_, ha⟩
      intro y hy
      rcases List.mem_cons.mp hy with rfl | hy
      · exact hlt
      · exact hb y hy
    · have hge : key e ≤ key x := not_lt.mp hlt
      refine ⟨[], x :: l, rfl, by simp, ?_⟩
      intro y hy
      rcases List.mem_cons.mp hy with rfl | hy
      · exact hge
      · exact hge.trans (hx y hy)

/-- Let `P` hold between every earlier and later entry of a sorted list. It keeps doing so
after an insertion when `P` relates the smaller entries to `e`, and `e` to the others. -/
theorem pairwise_keyedInsert {P : ι → ι → Prop} (hs : KeySorted key l) (hl : l.Pairwise P)
    (hBelow : ∀ x ∈ l, key x < key e → P x e) (hAbove : ∀ x ∈ l, key e ≤ key x → P e x) :
    (keyedInsert key e l).Pairwise P := by
  obtain ⟨before, after, rfl, hb, ha⟩ := hs.split e
  rw [keyedInsert_append hb fun x hx => ha x (List.mem_of_mem_head? hx)]
  obtain ⟨hB, hA, hBA⟩ := List.pairwise_append.mp hl
  refine List.pairwise_append.mpr ⟨hB, List.pairwise_cons.mpr ⟨?_, hA⟩, ?_⟩
  · intro x hx
    exact hAbove x (List.mem_append_right _ hx) (ha x hx)
  · intro x hx y hy
    rcases List.mem_cons.mp hy with rfl | hy
    · exact hBelow x (List.mem_append_left _ hx) (hb x hx)
    · exact hBA x hx y hy

theorem KeySorted.keyedInsert (hs : KeySorted key l) : KeySorted key (keyedInsert key e l) :=
  pairwise_keyedInsert hs hs (fun _ _ h => h.le) (fun _ _ h => h)

end NetSim.Library
