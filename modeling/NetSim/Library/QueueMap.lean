import Mathlib.Data.List.AList
import Mathlib.Algebra.BigOperators.Group.List.Basic
import Mathlib.Algebra.GroupWithZero.Nat

/-!
# Maps of queues

A map from keys to first-in first-out queues, as `std::unordered_map<K, std::queue<T>>` is used
for bookkeeping: `push` appends to the queue of a key, which is created when it is missing, and
`pop` removes the front of the queue of a key and erases the key when its queue becomes empty.
`NoEmpty` is the invariant that no key holds an empty queue. `total` is the number of queued
values, and `zipQueues` pairs the values of two maps that are kept in lock step.
-/

namespace NetSim.Library

variable {κ α β : Type} [DecidableEq κ]

abbrev QueueMap (κ α : Type) := AList fun _ : κ => List α

namespace QueueMap

/-- The queue of a key, empty when the key is missing. -/
def get (m : QueueMap κ α) (k : κ) : List α := (m.lookup k).getD []

/-- `m[k].push(v)` -/
def push (m : QueueMap κ α) (k : κ) (v : α) : QueueMap κ α := m.insert k (m.get k ++ [v])

/-- Pop the front of the queue of `k` and erase the key when nothing is left. -/
def pop (m : QueueMap κ α) (k : κ) : QueueMap κ α :=
  if (m.get k).tail = [] then m.erase k else m.insert k (m.get k).tail

/-- No key holds an empty queue. -/
def NoEmpty (m : QueueMap κ α) : Prop := ∀ k, m.lookup k ≠ some []

/-- The number of queued values. -/
def total (m : QueueMap κ α) : Nat := (m.entries.map fun e => e.2.length).sum

/-! ## Queues -/

@[simp] theorem get_empty (k : κ) : get (∅ : QueueMap κ α) k = [] := by simp [get]

theorem get_push (m : QueueMap κ α) (k k' : κ) (v : α) :
    (m.push k v).get k' = if k' = k then m.get k ++ [v] else m.get k' := by
  by_cases h : k' = k
  · subst h
    simp [get, push]
  · simp [get, push, h]

theorem get_pop (m : QueueMap κ α) (k k' : κ) :
    (m.pop k).get k' = if k' = k then (m.get k).tail else m.get k' := by
  unfold pop
  by_cases h : k' = k
  · subst h
    split
    · rename_i htail
      rw [htail]
      simp [get]
    · simp [get]
  · split <;> simp [get, h]

theorem get_eq_nil_iff {m : QueueMap κ α} (hm : m.NoEmpty) {k : κ} :
    m.get k = [] ↔ m.lookup k = none := by
  unfold get
  cases h : m.lookup k with
  | none => simp
  | some q =>
    simp only [Option.getD_some, reduceCtorEq, iff_false]
    rintro rfl
    exact hm k h

theorem lookup_eq_some_of_get {m : QueueMap κ α} {k : κ} {v : α} {q : List α}
    (h : m.get k = v :: q) : m.lookup k = some (v :: q) := by
  unfold get at h
  cases hl : m.lookup k with
  | none => simp [hl] at h
  | some q' =>
    rw [hl, Option.getD_some] at h
    rw [h]

theorem noEmpty_empty : NoEmpty (∅ : QueueMap κ α) := by
  intro k
  simp

theorem NoEmpty.push {m : QueueMap κ α} (hm : m.NoEmpty) (k : κ) (v : α) :
    (m.push k v).NoEmpty := by
  intro k'
  by_cases h : k' = k
  · subst h
    simp [QueueMap.push]
  · rw [QueueMap.push, AList.lookup_insert_ne h]
    exact hm k'

theorem NoEmpty.pop {m : QueueMap κ α} (hm : m.NoEmpty) (k : κ) : (m.pop k).NoEmpty := by
  intro k'
  unfold QueueMap.pop
  by_cases h : k' = k
  · subst h
    split
    · simp
    · rename_i htail
      rw [AList.lookup_insert]
      exact fun he => htail (Option.some.inj he)
  · split
    · rw [AList.lookup_erase_ne h]
      exact hm k'
    · rw [AList.lookup_insert_ne h]
      exact hm k'

/-! ## Entries -/

theorem key_ne_of_mem_kerase {m : QueueMap κ α} {k : κ} {e : Sigma fun _ : κ => List α}
    (he : e ∈ m.entries.kerase k) : e.1 ≠ k := by
  rintro rfl
  exact List.notMem_keys_kerase e.1 m.nodupKeys (List.mem_keys_of_mem he)

/-- Sums over the entries split off the queue of any key. -/
theorem sum_entries (m : QueueMap κ α) (k : κ) (f : κ → List α → Nat) (hf : ∀ k, f k [] = 0) :
    (m.entries.map fun e => f e.1 e.2).sum =
      f k (m.get k) + ((m.entries.kerase k).map fun e => f e.1 e.2).sum := by
  by_cases hk : k ∈ m.entries.keys
  · obtain ⟨q, l₁, l₂, hl₁, hsplit, herase⟩ := List.exists_of_kerase hk
    have hget : m.get k = q := by
      have hmem : (⟨k, q⟩ : Sigma fun _ : κ => List α) ∈ m.entries := by rw [hsplit]; simp
      have hlook := (List.mem_dlookup_iff m.nodupKeys).mpr hmem
      simp only [get, AList.lookup, Option.mem_def.mp hlook, Option.getD_some]
    rw [herase, hget]
    conv_lhs => rw [hsplit]
    simp only [List.map_append, List.map_cons, List.sum_append, List.sum_cons]
    omega
  · have hget : m.get k = [] := by
      have hlook : m.entries.dlookup k = none := List.dlookup_eq_none.mpr hk
      simp [get, AList.lookup, hlook]
    rw [List.kerase_of_notMem_keys hk, hget, hf]
    omega

theorem total_push (m : QueueMap κ α) (k : κ) (v : α) : (m.push k v).total = m.total + 1 := by
  have h := sum_entries m k (fun _ q => q.length) (fun _ => rfl)
  simp only [total, push, AList.entries_insert, List.map_cons, List.sum_cons,
    List.length_append, List.length_singleton] at h ⊢
  omega

theorem total_pop {m : QueueMap κ α} {k : κ} (h : m.get k ≠ []) :
    (m.pop k).total + 1 = m.total := by
  have hsum := sum_entries m k (fun _ q => q.length) (fun _ => rfl)
  have hlen : (m.get k).tail.length + 1 = (m.get k).length := by
    cases hq : m.get k with
    | nil => exact absurd hq h
    | cons v q => rfl
  simp only [total, pop] at hsum ⊢
  split
  · rename_i htail
    rw [htail] at hlen
    have herase : (m.erase k).entries = m.entries.kerase k := rfl
    rw [herase]
    simp only [List.length_nil] at hlen
    omega
  · simp only [AList.entries_insert, List.map_cons, List.sum_cons]
    omega

/-! ## Two maps in lock step -/

/-- The values of two maps, paired by key and position. -/
def zipQueues (m : QueueMap κ α) (m' : QueueMap κ β) : List (α × β) :=
  m.entries.flatMap fun e => e.2.zip (m'.get e.1)

variable [DecidableEq α] [DecidableEq β]

theorem count_zipQueues (m : QueueMap κ α) (m' : QueueMap κ β) (k : κ) (x : α × β) :
    (zipQueues m m').count x = ((m.get k).zip (m'.get k)).count x +
      ((m.entries.kerase k).map fun e => (e.2.zip (m'.get e.1)).count x).sum := by
  rw [zipQueues, List.count_flatMap]
  exact sum_entries m k (fun k q => (q.zip (m'.get k)).count x) (fun _ => rfl)

/-- Pushing a pair under one key adds that pair. -/
theorem count_zipQueues_push (m : QueueMap κ α) (m' : QueueMap κ β) (k : κ) (v : α) (w : β)
    (hlen : (m.get k).length = (m'.get k).length) (x : α × β) :
    (zipQueues (m.push k v) (m'.push k w)).count x =
      (zipQueues m m').count x + [(v, w)].count x := by
  rw [count_zipQueues _ _ k, count_zipQueues m m' k]
  have hrest : (((m.push k v).entries.kerase k).map fun e =>
        (e.2.zip ((m'.push k w).get e.1)).count x).sum =
      ((m.entries.kerase k).map fun e => (e.2.zip (m'.get e.1)).count x).sum := by
    simp only [push, AList.entries_insert, List.kerase_cons_eq]
    refine congrArg List.sum (List.map_congr_left fun e he => ?_)
    have hne := key_ne_of_mem_kerase he
    simp [get, hne]
  rw [hrest, get_push, get_push, if_pos rfl, if_pos rfl, List.zip_append hlen, List.count_append]
  simp only [List.zip_cons_cons, List.zip_nil_right]
  omega

/-- Popping both queues of a key removes the pair of their fronts. -/
theorem count_zipQueues_pop {m : QueueMap κ α} {m' : QueueMap κ β} {k : κ} {v : α} {w : β}
    {q : List α} {q' : List β} (hq : m.get k = v :: q) (hq' : m'.get k = w :: q') (x : α × β) :
    (zipQueues (m.pop k) (m'.pop k)).count x + [(v, w)].count x = (zipQueues m m').count x := by
  rw [count_zipQueues _ _ k, count_zipQueues m m' k]
  have hkerase : (m.pop k).entries.kerase k = m.entries.kerase k := by
    unfold pop
    split
    · exact List.kerase_of_notMem_keys (List.notMem_keys_kerase k m.nodupKeys)
    · simp only [AList.entries_insert, List.kerase_cons_eq]
  have hrest : (((m.pop k).entries.kerase k).map fun e =>
        (e.2.zip ((m'.pop k).get e.1)).count x).sum =
      ((m.entries.kerase k).map fun e => (e.2.zip (m'.get e.1)).count x).sum := by
    rw [hkerase]
    refine congrArg List.sum (List.map_congr_left fun e he => ?_)
    have hne := key_ne_of_mem_kerase he
    rw [get_pop, if_neg hne]
  rw [hrest, get_pop, get_pop, if_pos rfl, if_pos rfl, hq, hq']
  simp only [List.tail_cons, List.zip_cons_cons, List.count_cons, List.count_nil]
  omega

end QueueMap

end NetSim.Library
