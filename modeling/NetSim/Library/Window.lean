import Mathlib.Order.Lattice
import Mathlib.Data.List.Basic

/-!
# Sliding windows

A window that limits how many events happen in a stretch of time. It holds, the oldest first, the
times at which the latest events are released. An event is admitted unless the window is full and
its front has not been released; then the front is removed if it has been released, and the release
time of the event is added. So of any `size + 1` consecutive events the last one does not happen
before the release of the first (`Tracks.spaced`).
-/

namespace NetSim.Library

variable {α : Type} [LinearOrder α]

/-- The event at `t` is admitted. -/
def Admits (size : Nat) (window : List α) (t : α) : Prop :=
  ∀ front ∈ window.head?, ¬ (t < front ∧ size ≤ window.length)

/-- The window after an event at `t`. -/
def pushWindow (release : α → α) (window : List α) (t : α) : List α :=
  (match window with
    | [] => []
    | front :: rest => if front ≤ t then rest else window) ++ [release t]

/-- The window `window` after the events at the times `history`, the latest first. -/
structure Tracks (size : Nat) (release : α → α) (window history : List α) : Prop where
  length : window.length ≤ size
  tracked : window = ((history.take window.length).map release).reverse
  /-- What has left the window has been released. -/
  expired : ∀ a ∈ history.drop window.length, ∀ t ∈ history.head?, release a ≤ t
  spaced : ∀ i a b, history[i]? = some a → history[i + size]? = some b → release b ≤ a

namespace Tracks

variable {size : Nat} {release : α → α} {window history : List α} {t : α}

theorem nil : Tracks size release [] [] where
  length := Nat.zero_le _
  tracked := rfl
  expired := by simp
  spaced := by simp

/-- The front of the window is the release of the oldest event that is tracked. -/
theorem front_eq {front : α} {rest : List α} (h : Tracks size release (front :: rest) history) :
    ∃ a, history[rest.length]? = some a ∧ front = release a ∧
      rest = ((history.take rest.length).map release).reverse := by
  have hwindow := h.tracked
  rw [List.length_cons] at hwindow
  have hlength := congrArg List.length hwindow
  simp only [List.length_cons, List.length_reverse, List.length_map, List.length_take] at hlength
  have hlt : rest.length < history.length := by omega
  refine ⟨history[rest.length], by simp [hlt], ?_⟩
  rw [List.take_succ_eq_append_getElem hlt, List.map_append, List.reverse_append] at hwindow
  simpa using hwindow

/-- The first event that is not tracked, if the window is not full. -/
theorem released {a : α} (h : Tracks size release window history)
    (hadmits : Admits size window t) (hmono : ∀ u ∈ history.head?, u ≤ t)
    (ha : history[size - 1]? = some a) (hsize : 0 < size) : release a ≤ t := by
  by_cases hfull : window.length = size
  · cases window with
    | nil =>
      simp only [List.length_nil] at hfull
      omega
    | cons front rest =>
      obtain ⟨b, hb, hfront, -⟩ := h.front_eq
      simp only [List.length_cons] at hfull
      have hindex : rest.length = size - 1 := by omega
      rw [hindex, ha] at hb
      cases hb
      have hready := hadmits front rfl
      simp only [List.length_cons, not_and] at hready
      rw [← hfront]
      by_contra hlate
      have := hready (not_le.mp hlate)
      omega
  · have hlength := h.length
    have hmem : a ∈ history.drop window.length := by
      refine List.mem_of_getElem? (i := size - 1 - window.length) ?_
      rw [List.getElem?_drop, ← ha]
      congr 1
      omega
    cases history with
    | nil => simp at ha
    | cons u history => exact (h.expired a hmem u rfl).trans (hmono u rfl)

/-- An event that is admitted, not before the latest one. -/
theorem push (h : Tracks size release window history) (hsize : 0 < size)
    (hadmits : Admits size window t) (hmono : ∀ u ∈ history.head?, u ≤ t) :
    Tracks size release (pushWindow release window t) (t :: history) := by
  have hspaced : ∀ i a b, (t :: history)[i]? = some a → (t :: history)[i + size]? = some b →
      release b ≤ a := by
    intro i a b ha hb
    cases i with
    | zero =>
      cases ha
      refine h.released hadmits hmono ?_ hsize
      rw [Nat.zero_add] at hb
      obtain ⟨n, rfl⟩ : ∃ n, size = n + 1 := ⟨size - 1, by omega⟩
      exact hb
    | succ i =>
      refine h.spaced i a b ha ?_
      rw [Nat.succ_add] at hb
      exact hb
  have hexpired : ∀ a ∈ history.drop window.length, release a ≤ t := by
    intro a ha
    cases history with
    | nil => simp at ha
    | cons u history => exact (h.expired a ha u rfl).trans (hmono u rfl)
  unfold pushWindow
  cases window with
  | nil =>
    exact ⟨hsize, rfl, by simpa using hexpired, hspaced⟩
  | cons front rest =>
    obtain ⟨b, hb, hfront, hrest⟩ := h.front_eq
    have hlength := h.length
    simp only [List.length_cons] at hlength
    dsimp only
    split
    · -- the front is removed
      rename_i hreleased
      refine ⟨by simpa using hlength, ?_, ?_, hspaced⟩
      · simp only [List.length_append, List.length_cons, List.length_nil, Nat.zero_add,
          List.take_succ_cons, List.map_cons, List.reverse_cons]
        rw [← hrest]
      · intro a ha u hu
        cases hu
        simp only [List.length_append, List.length_cons, List.length_nil, Nat.zero_add,
          List.drop_succ_cons] at ha
        have hlt : rest.length < history.length := by
          by_contra hge
          rw [List.getElem?_eq_none (by omega)] at hb
          cases hb
        rw [List.drop_eq_getElem_cons hlt] at ha
        rcases List.mem_cons.mp ha with rfl | ha
        · rw [List.getElem?_eq_getElem hlt] at hb
          cases hb
          rw [← hfront]
          exact hreleased
        · exact hexpired a ha
    · -- the window grows
      rename_i hlate
      have hready := hadmits front rfl
      simp only [List.length_cons, not_and] at hready
      have hroom := hready (not_le.mp hlate)
      have hpushed : (front :: rest ++ [release t]).length = (front :: rest).length + 1 := by simp
      refine ⟨?_, ?_, ?_, hspaced⟩
      · rw [hpushed, List.length_cons]
        omega
      · rw [hpushed, List.take_succ_cons, List.map_cons, List.reverse_cons, ← h.tracked]
      · intro a ha u hu
        cases hu
        rw [hpushed, List.drop_succ_cons] at ha
        exact hexpired a ha

end Tracks

end NetSim.Library
