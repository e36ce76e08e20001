import NetSim.Event.Agenda
import NetSim.Library.Fuel

/-!
# The event queue refines a sorted list with latest-first ties

A run starts from a new queue and takes steps of three kinds: a call of `schedule` that passes
its asserts, a call of `deschedule`, and a call of `serviceOne`, which takes the head and then
runs a callback. A callback is any finite sequence of calls of the first two kinds, chosen in
any way from the states it sees; a `runtime_error` of `deschedule` may be caught anywhere, so
the run goes on from the state at the `throw`. The trace remembers the order of the `schedule`
calls, latest first.
-/

namespace NetSim.Event

open Library

variable {ι : Type} [DecidableEq ι]

/-- A queue together with the events of all `schedule` calls so far, latest first. -/
structure Traced (ι : Type) where
  queue : EventQueue ι
  order : List ι

/-- One call on the queue that returns, or throws `runtime_error` and is caught. -/
inductive CallStep : Traced ι → Traced ι → Prop
  | schedule {s : Traced ι} {fuel : Nat} {e : ι} {w : Tick} {q' : EventQueue ι}
      (hrun : s.queue.schedule fuel e w = .ok q') : CallStep s ⟨q', e :: s.order⟩
  | deschedule {s : Traced ι} {fuel : Nat} {e : ι} {q' : EventQueue ι}
      (hrun : s.queue.deschedule fuel e = .ok q') : CallStep s ⟨q', s.order⟩
  | thrown {s : Traced ι} {fuel : Nat} {e : ι} {q' : EventQueue ι}
      (hrun : s.queue.deschedule fuel e = .error (.notFound q')) : CallStep s ⟨q', s.order⟩

/-- One step of the main program. In `serviceOne` the callback of the event taken from the
head makes any sequence of calls. -/
inductive QueueStep : Traced ι → Traced ι → Prop
  | call {s s' : Traced ι} (h : CallStep s s') : QueueStep s s'
  | serviceOne {s s' : Traced ι} {e : ι} {q' : EventQueue ι}
      (htake : s.queue.takeHead = .ok (e, q'))
      (hprocess : Relation.ReflTransGen CallStep ⟨q', s.order⟩ s') : QueueStep s s'

/-- The states of all runs over events of the given priorities. -/
def QueueRun (priority : ι → Priority) : Traced ι → Prop :=
  Relation.ReflTransGen QueueStep ⟨EventQueue.init priority, []⟩

/-- `serviceOne` with the callbacks `process` is a step of a run when it returns. -/
theorem queueStep_serviceOne {s : Traced ι} {fuel : Nat} {process : ι → List (Call ι)}
    {q' : EventQueue ι} (hrun : s.queue.serviceOne fuel process = .ok q') :
    ∃ order, QueueStep s ⟨q', order⟩ := by
  have hAll : ∀ (cs : List (Call ι)) (s : Traced ι), Call.execAll fuel cs s.queue = .ok q' →
      ∃ order, Relation.ReflTransGen CallStep s ⟨q', order⟩ := by
    intro cs
    induction cs with
    | nil =>
      intro s h
      cases h
      exact ⟨s.order, .refl⟩
    | cons c cs ih =>
      intro s h
      simp only [Call.execAll, bind, Except.bind] at h
      split at h
      · cases h
      · rename_i q1 hc
        cases c with
        | schedule e w =>
          obtain ⟨order, hrest⟩ := ih ⟨q1, e :: s.order⟩ h
          exact ⟨order, .head (.schedule hc) hrest⟩
        | deschedule e =>
          obtain ⟨order, hrest⟩ := ih ⟨q1, s.order⟩ h
          exact ⟨order, .head (.deschedule hc) hrest⟩
  simp only [EventQueue.serviceOne, bind, Except.bind] at hrun
  split at hrun
  · cases hrun
  · rename_i r htake
    obtain ⟨order, hprocess⟩ := hAll _ ⟨r.2, s.order⟩ hrun
    exact ⟨order, .serviceOne htake hprocess⟩

/-! ## The invariant of runs -/

/-- Of two pending events of equal key, the first was scheduled later. -/
def LatestFirst (s : Traced ι) (l : List ι) : Prop :=
  l.Pairwise fun a b => s.queue.key a = s.queue.key b → s.order.idxOf a < s.order.idxOf b

/-- The queue reads as an agenda whose ties are latest first. -/
def Tracked (s : Traced ι) : Prop :=
  ∃ a, Refines s.queue a ∧ LatestFirst s a.pending

/-- A `schedule` call that returns passed its asserts. -/
theorem schedule_ok {q q' : EventQueue ι} {fuel : Nat} {e : ι} {w : Tick}
    (hrun : q.schedule fuel e w = .ok q') : q.scheduled e = false ∧ q.curTick ≤ w := by
  unfold EventQueue.schedule at hrun
  split at hrun
  · cases hrun
  · rename_i hs
    split at hrun
    · cases hrun
    · rename_i hw
      exact ⟨by simpa using hs, Nat.not_lt.mp hw⟩

/-! ## Fuel -/

omit [DecidableEq ι] in
theorem findBin_stable (q : EventQueue ι) (e prev : ι) (curr : Option ι) :
    FuelStable Failure.outOfFuel fun fuel => q.findBin e fuel prev curr := by
  intro fuel
  induction fuel generalizing prev curr with
  | zero =>
    intro h
    exact absurd rfl h
  | succ fuel ih =>
    intro h k
    have hk : fuel + 1 + k = fuel + k + 1 := by omega
    simp only [hk]
    cases curr with
    | none => rfl
    | some c =>
      simp only [EventQueue.findBin] at h ⊢
      split
      · rename_i hlt
        rw [if_pos hlt] at h
        exact ih _ _ h k
      · rfl

theorem findInBin_stable (q : EventQueue ι) (e curr : ι) (next : Option ι) :
    FuelStable Failure.outOfFuel fun fuel => q.findInBin e fuel curr next := by
  intro fuel
  induction fuel generalizing curr next with
  | zero =>
    intro h
    exact absurd rfl h
  | succ fuel ih =>
    intro h k
    have hk : fuel + 1 + k = fuel + k + 1 := by omega
    simp only [hk]
    simp only [EventQueue.findInBin] at h ⊢
    split
    · rfl
    · rename_i hne
      rw [if_neg hne] at h
      cases next with
      | none => rfl
      | some n => exact ih _ _ h k

theorem removeItem_stable (e top : ι) (q : EventQueue ι) :
    FuelStable Failure.outOfFuel fun fuel => EventQueue.removeItem fuel e top q := by
  unfold EventQueue.removeItem
  split
  · exact .const _
  · exact .bind (findInBin_stable q e top _) fun _ => .const _

theorem insert_stable (e : ι) (q : EventQueue ι) :
    FuelStable Failure.outOfFuel fun fuel => EventQueue.insert fuel e q := by
  unfold EventQueue.insert
  dsimp only
  split
  · exact .const _
  · split
    · exact .const _
    · exact .bind (findBin_stable _ e _ _) fun _ => .const _

theorem remove_stable (e : ι) (q : EventQueue ι) :
    FuelStable Failure.outOfFuel fun fuel => EventQueue.remove fuel e q := by
  unfold EventQueue.remove
  dsimp only
  split
  · exact .const _
  · split
    · exact .bind (removeItem_stable e _ _) fun _ => .const _
    · refine .bind (findBin_stable _ e _ _) fun r => ?_
      obtain ⟨prev, curr⟩ := r
      cases curr with
      | none => exact .const _
      | some c =>
        dsimp only
        split
        · exact .const _
        · exact .bind (removeItem_stable e _ _) fun _ => .const _

theorem schedule_stable (e : ι) (w : Tick) (q : EventQueue ι) :
    FuelStable Failure.outOfFuel fun fuel => EventQueue.schedule fuel e w q := by
  unfold EventQueue.schedule
  split
  · exact .const _
  · split
    · exact .const _
    · exact insert_stable e _

/-- A call of `schedule` that returns, on a queue that reads as an agenda. -/
theorem schedule_refines {q q' : EventQueue ι} {a : Agenda ι} {fuel : Nat} {e : ι} {w : Tick}
    (ha : Refines q a) (hrun : q.schedule fuel e w = .ok q') : Refines q' (a.schedule e w) := by
  obtain ⟨he, hw⟩ := schedule_ok hrun
  obtain ⟨q1, hrun1, h1⟩ := ha.schedule he hw (Nat.lt_succ_self a.pending.length)
  have hsame := (schedule_stable e w q).agree hrun hrun1 (by simp) (by simp)
  cases hsame
  exact h1

/-- The same, without the agenda. -/
theorem Sound.schedule_ok {q q' : EventQueue ι} {fuel : Nat} {e : ι} {w : Tick} (h : Sound q)
    (hrun : q.schedule fuel e w = .ok q') :
    Sound q' ∧ q.scheduled e = false ∧ q'.scheduled = Function.update q.scheduled e true ∧
      q'.curTick = q.curTick ∧ q'.when = Function.update q.when e w := by
  obtain ⟨a, ha⟩ := h
  have h' := schedule_refines ha hrun
  exact ⟨⟨_, h'⟩, (Event.schedule_ok hrun).1, ha.schedule_fields h'⟩

/-- A call of `deschedule` that ends, on a queue that reads as an agenda. -/
theorem deschedule_cases {q : EventQueue ι} {a : Agenda ι} {fuel : Nat} {e : ι}
    {r : Except (Failure ι) (EventQueue ι)} (ha : Refines q a) (hrun : q.deschedule fuel e = r)
    (hr : r ≠ .error .outOfFuel) :
    (q.scheduled e = true ∧ ∃ q', r = .ok q' ∧ Refines q' (a.deschedule e)) ∨
      (q.scheduled e = false ∧ r = .error (.notFound q)) := by
  cases he : q.scheduled e with
  | false =>
    have hthrow := ha.deschedule_notFound he (Nat.lt_succ_self a.pending.length)
    exact Or.inr ⟨rfl, (remove_stable e q).agree hrun hthrow hr (by simp)⟩
  | true =>
    obtain ⟨q1, hrun1, h1⟩ := ha.deschedule he (Nat.lt_succ_self a.pending.length)
    exact Or.inl ⟨rfl, q1, (remove_stable e q).agree hrun hrun1 hr (by simp), h1⟩

/-! ## Every step keeps the invariant -/

/-- The ties after a legal `schedule`: the new entry stands before all others of its key. -/
theorem latestFirst_schedule {s : Traced ι} {a : Agenda ι} {e : ι} {w : Tick}
    {q' : EventQueue ι} (h : Refines s.queue a) (hl : LatestFirst s a.pending)
    (he : s.queue.scheduled e = false) (h' : Refines q' (a.schedule e w)) :
    LatestFirst ⟨q', e :: s.order⟩ (a.schedule e w).pending := by
  have heP : e ∉ a.pending := by
    rw [h.mem_pending, he]
    simp
  have hKey : ∀ x ∈ a.pending, (a.setWhen e w).key x = s.queue.key x := by
    intro x hx
    have hne : x ≠ e := fun hxe => heP (hxe ▸ hx)
    rw [← h.key]
    simp [Agenda.key, Agenda.setWhen, Function.update_of_ne hne]
  have hKey' : q'.key = (a.setWhen e w).key := h'.key.symm
  have hShift : ∀ x ∈ a.pending, (e :: s.order).idxOf x = s.order.idxOf x + 1 := by
    intro x hx
    have hne : e ≠ x := fun hex => heP (hex ▸ hx)
    exact List.idxOf_cons_ne _ hne
  have hOld : a.pending.Pairwise fun x y => q'.key x = q'.key y →
      (e :: s.order).idxOf x < (e :: s.order).idxOf y := by
    refine List.Pairwise.imp_of_mem ?_ hl
    intro x y hx hy hxy hkey
    rw [hKey', hKey x hx, hKey y hy] at hkey
    rw [hShift x hx, hShift y hy]
    exact Nat.succ_lt_succ (hxy hkey)
  refine pairwise_keyedInsert (h.keySorted.congr hKey) hOld ?_ ?_
  · intro x _ hlt hkey
    rw [hKey'] at hkey
    exact absurd hkey hlt.ne
  · intro x hx _ _
    rw [hShift x hx, List.idxOf_cons_self]
    exact Nat.succ_pos _

theorem latestFirst_sublist {s : Traced ι} {l l' : List ι} {q' : EventQueue ι}
    (hKey : q'.key = s.queue.key) (hsub : l'.Sublist l) (h : LatestFirst s l) :
    LatestFirst ⟨q', s.order⟩ l' := by
  unfold LatestFirst
  rw [hKey]
  exact List.Pairwise.sublist hsub h

theorem callStep_tracked {s s' : Traced ι} (h : CallStep s s') (hs : Tracked s) :
    Tracked s' := by
  obtain ⟨a, ha, hl⟩ := hs
  cases h with
  | @schedule fuel e w q' hrun =>
    have h1 := schedule_refines ha hrun
    exact ⟨_, h1, latestFirst_schedule ha hl (schedule_ok hrun).1 h1⟩
  | @deschedule fuel e q' hrun =>
    rcases deschedule_cases ha hrun (by simp) with ⟨-, q1, hq, h1⟩ | ⟨-, hq⟩
    · cases hq
      exact ⟨_, h1, latestFirst_sublist (h1.key.symm.trans ha.key) List.erase_sublist hl⟩
    · cases hq
  | @thrown fuel e q' hrun =>
    rcases deschedule_cases ha hrun (by simp) with ⟨-, q1, hq, -⟩ | ⟨-, hq⟩
    · cases hq
    · cases hq
      exact ⟨a, ha, hl⟩

theorem queueStep_tracked {s s' : Traced ι} (h : QueueStep s s') (hs : Tracked s) :
    Tracked s' := by
  cases h with
  | call h => exact callStep_tracked h hs
  | @serviceOne e q' htake hprocess =>
    obtain ⟨a, ha, hl⟩ := hs
    obtain ⟨rest, hcons, h1⟩ := ha.takeHead_ok htake
    have hsub : rest.Sublist a.pending := hcons ▸ List.sublist_cons_self e rest
    have hTaken : Tracked ⟨q', s.order⟩ :=
      ⟨_, h1, latestFirst_sublist (h1.key.symm.trans ha.key) hsub hl⟩
    induction hprocess with
    | refl => exact hTaken
    | tail _ hcall ih => exact callStep_tracked hcall ih

theorem queueRun_tracked {priority : ι → Priority} {s : Traced ι} (h : QueueRun priority s) :
    Tracked s := by
  induction h with
  | refl => exact ⟨_, Refines.init priority, List.Pairwise.nil⟩
  | tail _ hstep ih => exact queueStep_tracked hstep ih

/-- **Refinement.** In every state of every run the linked structure reads as a finite list
without duplicates that holds exactly the flagged events, is sorted by `(when, priority)` and
orders ties latest first. On it a legal `schedule` is insertion before all entries of equal
key, `deschedule` of a pending event is removal of that entry and of any other event throws
without effect, and `serviceOne` removes the first entry before it runs the callback. -/
theorem eventQueue_refines_sorted_list {priority : ι → Priority} {s : Traced ι}
    (h : QueueRun priority s) :
    ∃ l, Flattens s.queue l ∧ l.Nodup ∧ (∀ e, e ∈ l ↔ s.queue.scheduled e = true) ∧
      KeySorted s.queue.key l ∧ LatestFirst s l ∧
      (∀ e w, s.queue.scheduled e = false → s.queue.curTick ≤ w → ∃ q',
        (∃ bound, ∀ fuel, bound ≤ fuel → s.queue.schedule fuel e w = .ok q') ∧
        q'.when = Function.update s.queue.when e w ∧ q'.priority = s.queue.priority ∧
        Flattens q' (keyedInsert q'.key e l)) ∧
      (∀ e, s.queue.scheduled e = true → ∃ q',
        (∃ bound, ∀ fuel, bound ≤ fuel → s.queue.deschedule fuel e = .ok q') ∧
        Flattens q' (l.erase e)) ∧
      (∀ e, s.queue.scheduled e = false →
        ∃ bound, ∀ fuel, bound ≤ fuel → s.queue.deschedule fuel e = .error (.notFound s.queue)) ∧
      (∀ e rest, l = e :: rest → ∃ q', Flattens q' rest ∧ q'.curTick = s.queue.when e ∧
        ∀ fuel process, s.queue.serviceOne fuel process = Call.execAll fuel (process e) q') := by
  obtain ⟨a, ha, hl⟩ := queueRun_tracked h
  refine ⟨a.pending, ha.flattens, ha.nodup, fun e => ha.mem_pending, ha.keySorted, hl,
    ?_, ?_, ?_, ?_⟩
  · intro e w he hw
    obtain ⟨q', hrun, h'⟩ := ha.schedule he hw (Nat.lt_succ_self a.pending.length)
    refine ⟨q', ⟨a.pending.length + 1, fun fuel hFuel => ?_⟩, ?_, ?_, ?_⟩
    · obtain ⟨k, rfl⟩ := Nat.exists_eq_add_of_le hFuel
      exact ((schedule_stable e w s.queue) (by simp [hrun]) k).trans hrun
    · rw [← h'.when, ← ha.when]
      rfl
    · rw [← h'.priority, ← ha.priority]
      rfl
    · rw [← h'.key]
      exact h'.flattens
  · intro e he
    obtain ⟨q', hrun, h'⟩ := ha.deschedule he (Nat.lt_succ_self a.pending.length)
    refine ⟨q', ⟨a.pending.length + 1, fun fuel hFuel => ?_⟩, h'.flattens⟩
    obtain ⟨k, rfl⟩ := Nat.exists_eq_add_of_le hFuel
    have hrun' : s.queue.remove (a.pending.length + 1) e = .ok q' := hrun
    exact ((remove_stable e s.queue) (by simp [hrun']) k).trans hrun'
  · intro e he
    exact ⟨a.pending.length + 1, fun fuel hFuel => ha.deschedule_notFound he hFuel⟩
  · intro e rest hcons
    obtain ⟨q', hrun, h'⟩ := ha.takeHead hcons
    refine ⟨q', h'.flattens, ?_, fun fuel process => ?_⟩
    · rw [← h'.curTick, ← ha.when]
    · simp only [EventQueue.serviceOne, hrun, bind, Except.bind]

/-- Two events scheduled for one tick are both on the list, the later call first. -/
theorem eventQueue_refines_two_at_one_tick :
    ∃ s : Traced Bool, QueueRun (fun _ => 0) s ∧ s.order = [true, false] ∧
      ∃ l, Flattens s.queue l ∧ LatestFirst s l ∧ true ∈ l ∧ false ∈ l := by
  have hrun : QueueRun (fun _ : Bool => 0) _ :=
    (Relation.ReflTransGen.refl.tail
      (.call (@CallStep.schedule _ _ _ 1 false 3 _ rfl))).tail
      (.call (@CallStep.schedule _ _ _ 1 true 3 _ rfl))
  obtain ⟨l, hl, -, hmem, -, hlatest, -⟩ := eventQueue_refines_sorted_list hrun
  exact ⟨_, hrun, rfl, l, hl, hlatest, (hmem true).mpr rfl, (hmem false).mpr rfl⟩

end NetSim.Event
