import NetSim.Event.Causality

/-!
# `deschedule` and the destructor of the queue

`EventQueue::remove` clears the flag of its event before it searches, and the search goes by the
key of the event, which for an event that is not pending is whatever its last use left there. The
event is found if and only if it is pending; otherwise `runtime_error` is thrown from a state that
is the state before the call. The destructor removes the head until the queue is empty.
-/

namespace NetSim.Event

open Library

variable {ι : Type} [DecidableEq ι]

/-- The loop of `EventQueue::~EventQueue`. -/
def EventQueue.destroy (fuel : Nat) : Nat → EventQueue ι → Except (Failure ι) (EventQueue ι)
  | 0, _ => .error .outOfFuel
  | turns + 1, q =>
    match q.head with
    | none => .ok q
    | some head => do
      let q ← q.deschedule fuel head
      EventQueue.destroy fuel turns q

namespace Refines

variable {q q' : EventQueue ι} {a a' : Agenda ι} {e : ι}

/-- The flags after the event was removed from the agenda. -/
theorem scheduled_deschedule (h : Refines q a) (h' : Refines q' (a.deschedule e)) :
    q'.scheduled = Function.update q.scheduled e false := by
  funext x
  rw [Bool.eq_iff_iff, ← h'.mem_pending]
  have hmem : x ∈ (a.deschedule e).pending ↔ x ≠ e ∧ x ∈ a.pending := h.nodup.mem_erase_iff
  rw [hmem, h.mem_pending]
  by_cases hx : x = e
  · simp [hx]
  · simp [hx]

/-- The destructor returns once it has more turns and more fuel than there are pending events. -/
theorem destroy (h : Refines q a) {fuel turns : Nat} (hFuel : a.pending.length < fuel)
    (hTurns : a.pending.length < turns) :
    ∃ q', q.destroy fuel turns = .ok q' ∧ Refines q' { a with pending := [] } := by
  induction turns generalizing q a with
  | zero => omega
  | succ turns ih =>
    cases hp : a.pending with
    | nil =>
      have hhead : q.head = none := by rw [h.head, hp, List.head?_nil]
      refine ⟨q, by simp [EventQueue.destroy, hhead], ?_⟩
      rw [← hp]
      exact h
    | cons e rest =>
      have hhead : q.head = some e := by rw [h.head, hp, List.head?_cons]
      have he : q.scheduled e = true := h.mem_pending.mp (by simp [hp])
      obtain ⟨q1, hrun, h1⟩ := h.deschedule he hFuel
      have hrest : (a.deschedule e).pending = rest := by simp [Agenda.deschedule, hp]
      rw [hp, List.length_cons] at hFuel hTurns
      obtain ⟨q', hloop, h'⟩ := ih h1 (by rw [hrest]; omega) (by rw [hrest]; omega)
      refine ⟨q', ?_, h'⟩
      simp only [EventQueue.destroy, hhead, hrun, bind, Except.bind]
      exact hloop

end Refines

/-- **Descheduling.** In every state of every run of `schedule`, `deschedule` and `serviceOne`, also
inside the callbacks, and for every event: `deschedule` throws if and only if the event is not
pending, and then nothing has changed. When it returns, the event is off the list and its flag is
false, and the other pending events keep their order, their flags and their times. The destructor
empties the queue and leaves every flag false. -/
theorem deschedule_fails_cleanly {priority : ι → Priority} {s : Logged ι}
    (h : Reach Logged.Step Logged.Plain (.start priority) s) :
    ∃ l bound, Flattens s.queue l ∧ (∀ e, e ∈ l ↔ s.queue.scheduled e = true) ∧
      (∀ e fuel, bound ≤ fuel →
        ((∃ q', s.queue.deschedule fuel e = .error (.notFound q')) ↔
          s.queue.scheduled e = false) ∧
        (∀ q', s.queue.deschedule fuel e = .error (.notFound q') → q' = s.queue) ∧
        (s.queue.scheduled e = true → ∃ q', s.queue.deschedule fuel e = .ok q' ∧
          Flattens q' (l.erase e) ∧ e ∉ l.erase e ∧
          q'.scheduled = Function.update s.queue.scheduled e false ∧
          q'.when = s.queue.when ∧ q'.priority = s.queue.priority ∧
          q'.curTick = s.queue.curTick)) ∧
      ∀ fuel turns, bound ≤ fuel → bound ≤ turns → ∃ q', s.queue.destroy fuel turns = .ok q' ∧
        q'.head = none ∧ ∀ e, q'.scheduled e = false := by
  obtain ⟨a, ha, -⟩ := Logged.reach_good h
  refine ⟨a.pending, a.pending.length + 1, ha.flattens, fun e => ha.mem_pending, ?_, ?_⟩
  · intro e fuel hFuel
    cases he : s.queue.scheduled e with
    | false =>
      rw [ha.deschedule_notFound he hFuel]
      refine ⟨by simp, fun q' hq => ?_, by simp⟩
      cases hq
      rfl
    | true =>
      obtain ⟨q', hrun, h'⟩ := ha.deschedule he hFuel
      rw [hrun]
      refine ⟨by simp, by simp, fun _ => ⟨q', rfl, h'.flattens, ?_, ha.scheduled_deschedule h', ?_,
        ?_, ?_⟩⟩
      · intro hmem
        exact (ha.nodup.mem_erase_iff.mp hmem).1 rfl
      · exact h'.when.symm.trans ha.when
      · exact h'.priority.symm.trans ha.priority
      · exact h'.curTick.symm.trans ha.curTick
  · intro fuel turns hFuel hTurns
    obtain ⟨q', hrun, h'⟩ := ha.destroy hFuel hTurns
    refine ⟨q', hrun, h'.head, fun e => ?_⟩
    rw [← h'.not_mem_pending]
    exact List.not_mem_nil

/-- Two events are pending at one tick; a third that was processed at that tick is descheduled. -/
theorem deschedule_fails_cleanly_processed :
    ∃ s : Logged (Fin 3), Reach Logged.Step Logged.Plain (.start fun _ => 0) s ∧
      s.queue.when 0 = s.queue.when 1 ∧ s.queue.scheduled 0 = false ∧
      ∃ bound, ∀ fuel, bound ≤ fuel → ∃ q', s.queue.deschedule fuel 0 = .error (.notFound q') := by
  have h1 := Logged.reach_next (Reach.start : Reach Logged.Step Logged.Plain (.start fun _ => 0) _)
    (by simp) (@EntryStep.schedule (Fin 3) _ _ _ 3 1 5 rfl)
  have h2 := Logged.reach_next h1 (by simp) (@EntryStep.schedule (Fin 3) _ _ _ 3 2 5 rfl)
  have h3 := Logged.reach_next h2 (by simp) (@EntryStep.schedule (Fin 3) _ _ _ 3 0 5 rfl)
  have h4 := Logged.reach_next h3 (by simp) (.process rfl)
  obtain ⟨l, bound, -, -, hdeschedule, -⟩ := deschedule_fails_cleanly h4
  exact ⟨_, h4, rfl, rfl, bound, fun fuel hFuel => (hdeschedule 0 fuel hFuel).1.mpr rfl⟩

end NetSim.Event
