import NetSim.Event.Causality

/-!
# The clock of the memory model

`dramsim3_wrapper` (`src/dram/dramsim3_wrapper.cpp`) calls `MemorySystem::ClockTick` from its
`tickEvent`. `init` schedules the event for the current tick, and `tick` schedules it for the next
one, so the memory model is clocked once in every tick of the simulation. The other components are
arbitrary: in their `init`, in their callbacks and from inside `ClockTick` they make any calls on
the queue, for any event but `tickEvent`.
-/

namespace NetSim.System

open Library Event Relation

variable {ι : Type} [DecidableEq ι]

/-! ## Calls of the other components -/

/-- A call on the queue for another event than `tickEvent` that returns, or throws and is caught.
`reschedule` is called for events that are not pending only. -/
def OtherCall (tickEvent : ι) (q q' : EventQueue ι) : Prop :=
  ∃ x : Entry ι, EntryStep q x q' ∧ x.event ≠ tickEvent ∧ (∀ e t, x ≠ .process e t) ∧
    ∀ e t, x = .reschedule e t → q.scheduled e = false

/-- Any sequence of such calls. -/
def OthersDo (tickEvent : ι) : EventQueue ι → EventQueue ι → Prop :=
  ReflTransGen (OtherCall tickEvent)

/-! ## The wrapper -/

/-- `dramsim3_wrapper::init` -/
def wrapperInit (fuel : Nat) (tickEvent : ι) (q : EventQueue ι) :
    Except (Failure ι) (EventQueue ι) :=
  q.schedule fuel tickEvent q.curTick

/-- `dramsim3_wrapper::tick` after the call of `ClockTick`. -/
def wrapperRearm (fuel : Nat) (tickEvent : ι) (q : EventQueue ι) :
    Except (Failure ι) (EventQueue ι) :=
  if q.scheduled tickEvent then .ok q else q.schedule fuel tickEvent (q.curTick + 1)

theorem wrapperRearm_free {fuel : Nat} {tickEvent : ι} {q : EventQueue ι}
    (h : q.scheduled tickEvent = false) :
    wrapperRearm fuel tickEvent q = q.schedule fuel tickEvent (q.curTick + 1) := by
  rw [wrapperRearm, h]
  rfl

/-- The queue, and the ticks at which `ClockTick` was called, latest first. -/
structure Clocked (ι : Type) where
  queue : EventQueue ι
  clockTicks : List Tick

/-- `init` of all objects has returned; those of the other components stand before and after that of
the wrapper. -/
inductive Clocked.Started (tickEvent : ι) (priority : ι → Priority) : Clocked ι → Prop
  | mk {fuel : Nat} {q₁ q₂ q₃ : EventQueue ι}
      (hbefore : OthersDo tickEvent (EventQueue.init priority) q₁)
      (hinit : wrapperInit fuel tickEvent q₁ = .ok q₂) (hafter : OthersDo tickEvent q₂ q₃) :
      Started tickEvent priority ⟨q₃, []⟩

/-- `EventQueue::serviceOne` has returned. -/
inductive Clocked.Service (tickEvent : ι) : Clocked ι → Clocked ι → Prop
  | other {s : Clocked ι} {e : ι} {q q' : EventQueue ι} (htake : s.queue.takeHead = .ok (e, q))
      (hother : e ≠ tickEvent) (hprocess : OthersDo tickEvent q q') :
      Service tickEvent s ⟨q', s.clockTicks⟩
  | tick {s : Clocked ι} {fuel : Nat} {q q₁ q' : EventQueue ι}
      (htake : s.queue.takeHead = .ok (tickEvent, q)) (hclock : OthersDo tickEvent q q₁)
      (hrearm : wrapperRearm fuel tickEvent q₁ = .ok q') :
      Service tickEvent s ⟨q', q.curTick :: s.clockTicks⟩

/-! ## What the other components keep -/

variable {tickEvent : ι} {q q' : EventQueue ι} {a a' : Agenda ι}

/-- No pending event is in the past. -/
def Due (a : Agenda ι) : Prop := ∀ e ∈ a.pending, a.curTick ≤ a.when e

/-- From `a` to `a'` the clock and what concerns `tickEvent` stay as they are. -/
structure Frame (tickEvent : ι) (a a' : Agenda ι) : Prop where
  due : Due a → Due a'
  pending : tickEvent ∈ a'.pending ↔ tickEvent ∈ a.pending
  when : a'.when tickEvent = a.when tickEvent
  curTick : a'.curTick = a.curTick

theorem Due.schedule {e : ι} {w : Tick} (h : Due a) (hw : a.curTick ≤ w) :
    Due (a.schedule e w) := by
  intro y hy
  by_cases hye : y = e
  · subst hye
    simpa [Agenda.schedule, Agenda.setWhen] using hw
  · have hmem : y ∈ a.pending := (mem_keyedInsert.mp hy).resolve_left hye
    simpa [Agenda.schedule, Agenda.setWhen, hye] using h y hmem

/-- Another event is scheduled. -/
theorem Frame.schedule {e : ι} {w : Tick} (hw : a.curTick ≤ w) (hne : e ≠ tickEvent) :
    Frame tickEvent a (a.schedule e w) where
  due := fun hdue => hdue.schedule hw
  pending := by
    have hmem : tickEvent ∈ (a.schedule e w).pending ↔ tickEvent = e ∨ tickEvent ∈ a.pending :=
      mem_keyedInsert
    rw [hmem, or_iff_right hne.symm]
  when := Function.update_of_ne hne.symm _ _
  curTick := rfl

theorem frame_of_agendaStep {x : Entry ι} (h : AgendaStep a x a') (hne : x.event ≠ tickEvent)
    (hcall : ∀ e t, x ≠ .process e t) : Frame tickEvent a a' := by
  cases h with
  | schedule he hw => exact .schedule hw hne
  | reschedule he hw => exact .schedule hw hne
  | @deschedule e he =>
    refine ⟨fun hdue y hy => hdue y (List.mem_of_mem_erase hy), ?_, rfl, rfl⟩
    exact List.mem_erase_of_ne (fun heq => hne heq.symm)
  | notFound he => exact ⟨id, Iff.rfl, rfl, rfl⟩
  | process hp => exact absurd rfl (hcall _ _)

theorem OthersDo.frame (h : OthersDo tickEvent q q') (ha : Refines q a) :
    ∃ a', Refines q' a' ∧ Frame tickEvent a a' := by
  induction h with
  | refl => exact ⟨a, ha, id, Iff.rfl, rfl, rfl⟩
  | @tail q₁ q₂ _ hcall ih =>
    obtain ⟨a₁, ha₁, hframe₁⟩ := ih
    obtain ⟨x, hstep, hne, hnot, hidle⟩ := hcall
    have hlogged : EntryStep (Logged.mk q₁ []).queue x (Logged.mk q₂ []).queue := hstep
    obtain ⟨a₂, hagenda, ha₂⟩ := hlogged.simulates hidle ha₁
    have hframe₂ := frame_of_agendaStep hagenda hne hnot
    exact ⟨a₂, ha₂, fun hdue => hframe₂.due (hframe₁.due hdue),
      hframe₂.pending.trans hframe₁.pending, hframe₂.when.trans hframe₁.when,
      hframe₂.curTick.trans hframe₁.curTick⟩

/-! ## Every run -/

/-- `tickEvent` is pending at the current tick or the next, and `ClockTick` was called once in every
tick before the one it is pending at. -/
structure InStep (tickEvent : ι) (ticks : List Tick) (a : Agenda ι) : Prop where
  due : Due a
  pending : tickEvent ∈ a.pending
  soon : a.when tickEvent ≤ a.curTick + 1
  ticks : ticks = (List.range (a.when tickEvent)).reverse

omit [DecidableEq ι] in
theorem InStep.frame {ticks : List Tick} (h : InStep tickEvent ticks a)
    (hframe : Frame tickEvent a a') : InStep tickEvent ticks a' where
  due := hframe.due h.due
  pending := hframe.pending.mpr h.pending
  soon := by
    rw [hframe.when, hframe.curTick]
    exact h.soon
  ticks := by
    rw [hframe.when]
    exact h.ticks

/-- `tickEvent` is scheduled for a tick that is not after the next one. -/
theorem InStep.of_schedule {ticks : List Tick} {w : Tick} (hdue : Due a) (hw : a.curTick ≤ w)
    (hsoon : w ≤ a.curTick + 1) (hticks : ticks = (List.range w).reverse) :
    InStep tickEvent ticks (a.schedule tickEvent w) where
  due := hdue.schedule hw
  pending := mem_keyedInsert.mpr (.inl rfl)
  soon := by simpa [Agenda.schedule, Agenda.setWhen] using hsoon
  ticks := by simpa [Agenda.schedule, Agenda.setWhen] using hticks

theorem started_inStep {priority : ι → Priority} {s : Clocked ι}
    (h : Clocked.Started tickEvent priority s) :
    ∃ a, Refines s.queue a ∧ InStep tickEvent s.clockTicks a := by
  obtain ⟨hbefore, hinit, hafter⟩ := h
  obtain ⟨a₁, ha₁, hframe₁⟩ := hbefore.frame (Refines.init priority)
  have hdue : Due a₁ := hframe₁.due fun e he => by cases he
  have hclock : a₁.curTick = 0 := hframe₁.curTick
  have ha₂ := schedule_refines ha₁ hinit
  rw [← ha₁.curTick, hclock] at ha₂
  have hstep₂ : InStep tickEvent [] (a₁.schedule tickEvent 0) :=
    .of_schedule hdue (Nat.le_of_eq hclock) (Nat.zero_le _) rfl
  obtain ⟨a₃, ha₃, hframe₃⟩ := hafter.frame ha₂
  exact ⟨a₃, ha₃, hstep₂.frame hframe₃⟩

/-- One service step. The event that is taken is due no later than `tickEvent`; when it is
`tickEvent`, the list of calls grows by its tick. -/
theorem service_inStep {s s' : Clocked ι} (h : Clocked.Service tickEvent s s') {a : Agenda ι}
    (ha : Refines s.queue a) (hs : InStep tickEvent s.clockTicks a) :
    ∃ a', Refines s'.queue a' ∧ InStep tickEvent s'.clockTicks a' := by
  cases h with
  | @other e q q' htake hother hprocess =>
    obtain ⟨rest, hp, ha₁⟩ := ha.takeHead_ok htake
    have hsorted := Logged.keySorted_agenda ha
    have hmem : tickEvent ∈ rest := by
      have hpending := hs.pending
      rw [hp] at hpending
      exact (List.mem_cons.mp hpending).resolve_left (fun heq => hother heq.symm)
    have hclock : a.curTick ≤ a.when e := hs.due e (by simp [hp])
    have hstep₁ : InStep tickEvent s.clockTicks { a with pending := rest, curTick := a.when e } :=
      ⟨fun y hy => a.when_le_of_head hsorted hp hy, hmem,
        hs.soon.trans (Nat.add_le_add_right hclock 1), hs.ticks⟩
    obtain ⟨a', ha', hframe⟩ := hprocess.frame ha₁
    exact ⟨a', ha', hstep₁.frame hframe⟩
  | @tick fuel q q₁ q' htake hclock hrearm =>
    obtain ⟨rest, hp, ha₁⟩ := ha.takeHead_ok htake
    have hsorted := Logged.keySorted_agenda ha
    have hnodup := ha.nodup
    rw [hp, List.nodup_cons] at hnodup
    obtain ⟨a₁, ha₂, hframe⟩ := hclock.frame ha₁
    have hfree : q₁.scheduled tickEvent = false :=
      ha₂.not_mem_pending.mp fun hmem => hnodup.1 (hframe.pending.mp hmem)
    have htick : a₁.curTick = a.when tickEvent := hframe.curTick
    have hdue : Due a₁ := hframe.due fun y hy => a.when_le_of_head hsorted hp hy
    rw [wrapperRearm_free hfree] at hrearm
    refine ⟨_, schedule_refines ha₂ hrearm, ?_⟩
    have hnow : q.curTick = a.when tickEvent := ha₁.curTick.symm
    rw [← ha₂.curTick]
    refine .of_schedule hdue (Nat.le_succ _) (Nat.le_refl _) ?_
    rw [hnow, htick, hs.ticks, List.range_succ, List.reverse_append]
    rfl

/-- The memory model is clocked once in every tick: between two service steps `tickEvent` is pending
at the current tick or the next, and when no event of the current tick `t` is left, `ClockTick` has
been called in the ticks `0, .., t`, once in each. -/
theorem clock_in_step {priority : ι → Priority} {s₀ s : Clocked ι}
    (hstart : Clocked.Started tickEvent priority s₀)
    (h : ReflTransGen (Clocked.Service tickEvent) s₀ s) :
    s.queue.scheduled tickEvent = true ∧
      (s.queue.when tickEvent = s.queue.curTick ∨
        s.queue.when tickEvent = s.queue.curTick + 1) ∧
      ((∀ e, s.queue.scheduled e = true → s.queue.curTick < s.queue.when e) →
        s.clockTicks = (List.range (s.queue.curTick + 1)).reverse) := by
  obtain ⟨a, ha, hs⟩ : ∃ a, Refines s.queue a ∧ InStep tickEvent s.clockTicks a := by
    induction h with
    | refl => exact started_inStep hstart
    | tail _ hservice ih =>
      obtain ⟨a, ha, hs⟩ := ih
      exact service_inStep hservice ha hs
  have hpending : s.queue.scheduled tickEvent = true := ha.mem_pending.mp hs.pending
  have hlow := hs.due tickEvent hs.pending
  have hsoon := hs.soon
  have hticks := hs.ticks
  rw [ha.curTick, ha.when] at hlow hsoon
  rw [ha.when] at hticks
  refine ⟨hpending, ?_, fun hdone => ?_⟩
  · rcases Nat.eq_or_lt_of_le hlow with heq | hlt
    · exact .inl heq.symm
    · exact .inr (Nat.le_antisymm hsoon hlt)
  · rw [hticks, Nat.le_antisymm hsoon (hdone tickEvent hpending)]

/-- Another component schedules an event for tick 0 in its `init`, and from its callback for
tick 2. -/
theorem clock_in_step_shared_tick :
    ∃ s₀ s : Clocked Bool, Clocked.Started true (fun _ => 0) s₀ ∧
      ReflTransGen (Clocked.Service true) s₀ s ∧ s.queue.curTick = 0 ∧
      (∀ e, s.queue.scheduled e = true → s.queue.curTick < s.queue.when e) ∧
      s.queue.when true = 1 ∧ s.clockTicks = (List.range 1).reverse := by
  have hother : ∀ {q q' : EventQueue Bool} (w : Tick), q.schedule 3 false w = .ok q' →
      OthersDo true q q' := fun w hrun =>
    .single ⟨_, .schedule hrun, by simp [Entry.event], by simp, by simp⟩
  have hstart := @Clocked.Started.mk Bool _ true (fun _ => 0) 3 _ _ _ .refl rfl (hother 0 rfl)
  have hservice : ∀ {s : Clocked Bool} {q q' : EventQueue Bool},
      Clocked.Started true (fun _ => 0) s → s.queue.takeHead = .ok (false, q) →
      q.schedule 3 false 2 = .ok q' → Clocked.Service true s ⟨q', s.clockTicks⟩ :=
    fun _ htake hrun =>
    .other htake (by decide) (hother 2 hrun)
  have htick : ∀ {s s' : Clocked Bool} {q q' : EventQueue Bool}, Clocked.Service true s s' →
      s'.queue.takeHead = .ok (true, q) → wrapperRearm 3 true q = .ok q' →
      Clocked.Service true s' ⟨q', q.curTick :: s'.clockTicks⟩ := fun _ htake hrearm =>
    .tick htake .refl hrearm
  have hfirst := hservice hstart rfl rfl
  have hsecond := htick hfirst rfl rfl
  have hrun := ReflTransGen.tail (.single hfirst) hsecond
  exact ⟨_, _, hstart, hrun, rfl, by decide, rfl, (clock_in_step hstart hrun).2.2 (by decide)⟩

end NetSim.System
