import NetSim.Event.Refinement
import NetSim.Library.Reach

/-!
# Causality of the simulation

A run of the queue is read here one call at a time, so that the states inside a callback are states
of the run as well: taking the head and handing it to `process` is one step, and the calls that
`process` then makes are the steps up to the next one. Every step is a step of the agenda
(`EntryStep.simulates`), and what happened is kept in a log, latest first.

The clock is overwritten with the time of the head. It never goes back because every pending event
is due at or after the clock, which the assert of `schedule` and the order of the agenda keep true.
-/

namespace NetSim.Event

open Library

variable {ι : Type}

/-- What a step does: a call that returned, a call of `deschedule` whose `runtime_error` was
caught, or the start of a callback together with the clock that it sees. -/
inductive Entry (ι : Type)
  | schedule (event : ι) (when : Tick)
  | reschedule (event : ι) (when : Tick)
  | deschedule (event : ι)
  | notFound (event : ι)
  | process (event : ι) (tick : Tick)

namespace Entry

def event : Entry ι → ι
  | schedule e _ => e
  | reschedule e _ => e
  | deschedule e => e
  | notFound e => e
  | process e _ => e

/-- The clock after a step that was taken at `now`. -/
def clock (now : Tick) : Entry ι → Tick
  | process _ t => t
  | _ => now

def isProcess [DecidableEq ι] (e : ι) : Entry ι → Bool
  | process e' _ => e' = e
  | _ => false

end Entry

variable [DecidableEq ι]

/-- The steps of the queue. -/
inductive EntryStep : EventQueue ι → Entry ι → EventQueue ι → Prop
  | schedule {q q' : EventQueue ι} {fuel : Nat} {e : ι} {w : Tick}
      (hrun : q.schedule fuel e w = .ok q') : EntryStep q (.schedule e w) q'
  | reschedule {q q' : EventQueue ι} {fuel : Nat} {e : ι} {w : Tick}
      (hrun : q.reschedule fuel e w = .ok q') : EntryStep q (.reschedule e w) q'
  | deschedule {q q' : EventQueue ι} {fuel : Nat} {e : ι}
      (hrun : q.deschedule fuel e = .ok q') : EntryStep q (.deschedule e) q'
  | notFound {q q' : EventQueue ι} {fuel : Nat} {e : ι}
      (hrun : q.deschedule fuel e = .error (.notFound q')) : EntryStep q (.notFound e) q'
  | process {q q' : EventQueue ι} {e : ι}
      (htake : q.takeHead = .ok (e, q')) : EntryStep q (.process e q'.curTick) q'

/-- A queue together with all steps taken so far, latest first. -/
structure Logged (ι : Type) where
  queue : EventQueue ι
  log : List (Entry ι)

namespace Logged

omit [DecidableEq ι] in
def start (priority : ι → Priority) : Logged ι := ⟨EventQueue.init priority, []⟩

def Step (s : Logged ι) (x : Entry ι) (s' : Logged ι) : Prop :=
  EntryStep s.queue x s'.queue ∧ s'.log = x :: s.log

omit [DecidableEq ι] in
/-- The runs of `schedule`, `deschedule` and `serviceOne`. -/
def Plain (_ : Logged ι) (x : Entry ι) : Prop := ∀ e w, x ≠ .reschedule e w

omit [DecidableEq ι] in
/-- The runs in which `reschedule` is called for events that are not pending only. -/
def Idle (s : Logged ι) (x : Entry ι) : Prop :=
  ∀ e w, x = .reschedule e w → s.queue.scheduled e = false

omit [DecidableEq ι] in
theorem Plain.idle {s : Logged ι} {x : Entry ι} (h : Plain s x) : Idle s x :=
  fun e w hx => absurd hx (h e w)

end Logged

/-! ## Steps of the agenda -/

/-- What the steps of the queue do to the agenda. -/
inductive AgendaStep : Agenda ι → Entry ι → Agenda ι → Prop
  | schedule {a : Agenda ι} {e : ι} {w : Tick} (he : e ∉ a.pending) (hw : a.curTick ≤ w) :
      AgendaStep a (.schedule e w) (a.schedule e w)
  | reschedule {a : Agenda ι} {e : ι} {w : Tick} (he : e ∉ a.pending) (hw : a.curTick ≤ w) :
      AgendaStep a (.reschedule e w) (a.schedule e w)
  | deschedule {a : Agenda ι} {e : ι} (he : e ∈ a.pending) :
      AgendaStep a (.deschedule e) (a.deschedule e)
  | notFound {a : Agenda ι} {e : ι} (he : e ∉ a.pending) : AgendaStep a (.notFound e) a
  | process {a : Agenda ι} {e : ι} {rest : List ι} (hp : a.pending = e :: rest) :
      AgendaStep a (.process e (a.when e)) { a with pending := rest, curTick := a.when e }

/-- For an event that is not pending, `reschedule` does what `schedule` does. -/
theorem reschedule_eq_schedule {q : EventQueue ι} {e : ι} (he : q.scheduled e = false)
    (fuel : Nat) (w : Tick) : q.reschedule fuel e w = q.schedule fuel e w := by
  simp [EventQueue.reschedule, EventQueue.schedule, he]

omit [DecidableEq ι] in
theorem Refines.not_mem_pending {q : EventQueue ι} {a : Agenda ι} {e : ι} (h : Refines q a) :
    e ∉ a.pending ↔ q.scheduled e = false := by
  rw [h.mem_pending, Bool.not_eq_true]

/-- A step of the queue is a step of the agenda it reads as. -/
theorem EntryStep.simulates {s s' : Logged ι} {x : Entry ι} {a : Agenda ι}
    (h : EntryStep s.queue x s'.queue) (hok : s.Idle x) (ha : Refines s.queue a) :
    ∃ a', AgendaStep a x a' ∧ Refines s'.queue a' := by
  generalize hq' : s'.queue = q' at h
  cases h with
  | @schedule _ fuel e w hrun =>
    obtain ⟨he, hw⟩ := schedule_ok hrun
    exact ⟨_, .schedule (ha.not_mem_pending.mpr he) (ha.curTick ▸ hw), schedule_refines ha hrun⟩
  | @reschedule _ fuel e w hrun =>
    rw [reschedule_eq_schedule (hok e w rfl)] at hrun
    obtain ⟨he, hw⟩ := schedule_ok hrun
    exact ⟨_, .reschedule (ha.not_mem_pending.mpr he) (ha.curTick ▸ hw), schedule_refines ha hrun⟩
  | @deschedule _ fuel e hrun =>
    rcases deschedule_cases ha hrun (by simp) with ⟨he, q1, hq, h1⟩ | ⟨-, hq⟩
    · cases hq
      exact ⟨_, .deschedule (ha.mem_pending.mpr he), h1⟩
    · cases hq
  | @notFound _ fuel e hrun =>
    rcases deschedule_cases ha hrun (by simp) with ⟨-, q1, hq, -⟩ | ⟨he, hq⟩
    · cases hq
    · cases hq
      exact ⟨a, .notFound (ha.not_mem_pending.mpr he), ha⟩
  | @process _ e htake =>
    obtain ⟨rest, hp, h1⟩ := ha.takeHead_ok htake
    have hTick : q'.curTick = a.when e := h1.curTick.symm
    rw [hTick]
    exact ⟨_, .process hp, h1⟩

/-! ## The invariant of runs -/

/-- The last thing that happened to `e` is a call of `schedule` for the tick `w`. -/
def Armed (log : List (Entry ι)) (e : ι) (w : Tick) : Prop :=
  log.find? (fun x => x.event = e) = some (.schedule e w)

/-- Pending events are due at or after the clock and were last touched by the call of `schedule`
that gave them their time; every callback started at the time that the last call had given. -/
structure Causal (a : Agenda ι) (log : List (Entry ι)) : Prop where
  due : ∀ e ∈ a.pending, a.curTick ≤ a.when e
  armed : ∀ e ∈ a.pending, Armed log e (a.when e)
  processed : ∀ later e t earlier, log = later ++ .process e t :: earlier → Armed earlier e t

theorem Armed.cons {log : List (Entry ι)} {e : ι} {w : Tick} {x : Entry ι} (h : Armed log e w)
    (hx : x.event ≠ e) : Armed (x :: log) e w := by
  unfold Armed at h ⊢
  rw [List.find?_cons_of_neg (by simpa using hx), h]

theorem armed_schedule (log : List (Entry ι)) (e : ι) (w : Tick) :
    Armed (.schedule e w :: log) e w := by
  simp [Armed, Entry.event]

/-- One more entry keeps the history of the callbacks if it does not itself start a callback that
was not due. -/
theorem processed_cons {log : List (Entry ι)} {x : Entry ι}
    (h : ∀ later e t earlier, log = later ++ .process e t :: earlier → Armed earlier e t)
    (hx : ∀ e t, x = .process e t → Armed log e t) :
    ∀ later e t earlier, x :: log = later ++ .process e t :: earlier → Armed earlier e t := by
  intro later e t earlier hlog
  cases later with
  | nil =>
    obtain ⟨hentry, hrest⟩ := List.cons.inj hlog
    exact hrest ▸ hx e t hentry
  | cons y later => exact h later e t earlier (List.cons.inj hlog).2

/-- One step keeps the invariant. -/
theorem AgendaStep.causal {a a' : Agenda ι} {x : Entry ι} {log : List (Entry ι)}
    (h : AgendaStep a x a') (hplain : ∀ e w, x ≠ .reschedule e w) (hnodup : a.pending.Nodup)
    (hsorted : KeySorted a.key a.pending) (hc : Causal a log) : Causal a' (x :: log) := by
  cases h with
  | @schedule e w he hw =>
    have hcases : ∀ y ∈ (a.schedule e w).pending, y = e ∨ (y ∈ a.pending ∧ y ≠ e) := by
      intro y hy
      rcases mem_keyedInsert.mp hy with rfl | hy
      · exact Or.inl rfl
      · exact Or.inr ⟨hy, fun hye => he (hye ▸ hy)⟩
    have hself : (a.schedule e w).when e = w := Function.update_self ..
    have hother : ∀ y, y ≠ e → (a.schedule e w).when y = a.when y := fun y hy =>
      Function.update_of_ne hy ..
    refine ⟨?_, ?_, processed_cons hc.processed (by simp)⟩
    · intro y hy
      rcases hcases y hy with rfl | ⟨hy, hne⟩
      · rwa [hself]
      · rw [hother y hne]
        exact hc.due y hy
    · intro y hy
      rcases hcases y hy with rfl | ⟨hy, hne⟩
      · rw [hself]
        exact armed_schedule log y w
      · rw [hother y hne]
        exact (hc.armed y hy).cons hne.symm
  | reschedule => exact absurd rfl (hplain _ _)
  | @deschedule e he =>
    have hmem : ∀ y ∈ (a.deschedule e).pending, y ≠ e ∧ y ∈ a.pending := fun y hy =>
      hnodup.mem_erase_iff.mp hy
    refine ⟨fun y hy => hc.due y (hmem y hy).2, fun y hy => ?_,
      processed_cons hc.processed (by simp)⟩
    exact (hc.armed y (hmem y hy).2).cons (hmem y hy).1.symm
  | @notFound e he =>
    refine ⟨hc.due, fun y hy => (hc.armed y hy).cons ?_, processed_cons hc.processed (by simp)⟩
    rintro rfl
    exact he hy
  | @process e rest hp =>
    have hmem : ∀ y ∈ rest, y ∈ a.pending := fun y hy => by simp [hp, hy]
    refine ⟨fun y hy => a.when_le_of_head hsorted hp hy, fun y hy => ?_,
      processed_cons hc.processed ?_⟩
    · refine (hc.armed y (hmem y hy)).cons ?_
      rintro rfl
      rw [hp] at hnodup
      exact (List.nodup_cons.mp hnodup).1 hy
    · intro e' t hx
      cases hx
      exact hc.armed e (by simp [hp])

/-- The clock moves when a callback starts only, and then to the time of its event. -/
theorem AgendaStep.curTick {a a' : Agenda ι} {x : Entry ι} (h : AgendaStep a x a') :
    a'.curTick = x.clock a.curTick := by
  cases h <;> rfl

theorem AgendaStep.curTick_le {a a' : Agenda ι} {x : Entry ι} {log : List (Entry ι)}
    (h : AgendaStep a x a') (hc : Causal a log) : a.curTick ≤ a'.curTick := by
  rw [h.curTick]
  cases h with
  | @process e rest hp => exact hc.due e (by simp [hp])
  | _ => exact Nat.le_refl _

namespace Logged

/-- The invariant of runs. -/
def Good (s : Logged ι) : Prop := ∃ a, Refines s.queue a ∧ Causal a s.log

omit [DecidableEq ι] in
theorem keySorted_agenda {q : EventQueue ι} {a : Agenda ι} (h : Refines q a) :
    KeySorted a.key a.pending := by
  rw [h.key]
  exact h.keySorted

theorem Step.good {s s' : Logged ι} {x : Entry ι} (h : s.Step x s') (hplain : s.Plain x)
    (hs : s.Good) : s'.Good ∧ s.queue.curTick ≤ s'.queue.curTick := by
  obtain ⟨a, ha, hc⟩ := hs
  obtain ⟨a', hstep, ha'⟩ := h.1.simulates hplain.idle ha
  refine ⟨⟨a', ha', ?_⟩, ?_⟩
  · rw [h.2]
    exact hstep.causal hplain ha.nodup (keySorted_agenda ha) hc
  · rw [← ha.curTick, ← ha'.curTick]
    exact hstep.curTick_le hc

theorem start_good (priority : ι → Priority) : (start priority).Good := by
  refine ⟨_, Refines.init priority, ?_, ?_, ?_⟩
  · intro e he
    cases he
  · intro e he
    cases he
  · intro later e t earlier hlog
    simp [start] at hlog

/-- The clock does not go back along a run. -/
theorem curTick_le_of_reach {s s' : Logged ι} (hs : s.Good) (h : Reach Step Plain s s') :
    s'.Good ∧ s.queue.curTick ≤ s'.queue.curTick := by
  refine h.invariant (fun t => t.Good ∧ s.queue.curTick ≤ t.queue.curTick)
    ⟨hs, Nat.le_refl _⟩ fun t x t' _ ht hplain hstep => ?_
  obtain ⟨hgood, hle⟩ := hstep.good hplain ht.1
  exact ⟨hgood, ht.2.trans hle⟩

theorem reach_good {priority : ι → Priority} {s : Logged ι}
    (h : Reach Step Plain (start priority) s) : s.Good :=
  (curTick_le_of_reach (start_good priority) h).1

/-- Between a call of `schedule` for an event and the next one its callback starts at most once. -/
theorem process_at_most_once {log since earlier : List (Entry ι)} {e : ι} {w : Tick}
    (h : ∀ later e t earlier, log = later ++ .process e t :: earlier → Armed earlier e t)
    (later : List (Entry ι)) (hlog : log = later ++ since ++ .schedule e w :: earlier)
    (hsince : ∀ w', Entry.schedule e w' ∉ since) : since.countP (Entry.isProcess e) ≤ 1 := by
  induction since generalizing later with
  | nil => exact Nat.zero_le _
  | cons x since ih =>
    have hrest : ∀ w', Entry.schedule e w' ∉ since := fun w' hm =>
      hsince w' (List.mem_cons_of_mem _ hm)
    cases hx : x.isProcess e with
    | false =>
      rw [List.countP_cons_of_neg (by simp [hx])]
      exact ih (later ++ [x]) (by simp [hlog]) hrest
    | true =>
      -- nothing that concerns `e` stands between this callback and the call
      obtain ⟨t, rfl⟩ : ∃ t, x = .process e t := by
        cases x with
        | process e' t => exact ⟨t, by simp_all [Entry.isProcess]⟩
        | _ => cases hx
      have harmed := h later e t (since ++ .schedule e w :: earlier) (by simp [hlog])
      have hnone : since.find? (fun x => x.event = e) = none := by
        cases hf : since.find? (fun x => x.event = e) with
        | none => rfl
        | some y =>
          rw [Armed, List.find?_append, hf, Option.some_or] at harmed
          cases harmed
          exact absurd (List.mem_of_find?_eq_some hf) (hrest t)
      have hzero : since.countP (Entry.isProcess e) = 0 := by
        rw [List.countP_eq_zero]
        intro y hy hproc
        have hne := List.find?_eq_none.mp hnone y hy
        cases y with
        | process e' t' => simp_all [Entry.isProcess, Entry.event]
        | _ => cases hproc
      rw [List.countP_cons_of_pos hx, hzero]

end Logged

theorem Logged.reach_next {priority : ι → Priority} {q q' : EventQueue ι} {x : Entry ι}
    {log : List (Entry ι)} (h : Reach Logged.Step Logged.Plain (.start priority) ⟨q, log⟩)
    (hplain : ∀ e w, x ≠ .reschedule e w) (hstep : EntryStep q x q') :
    Reach Logged.Step Logged.Plain (.start priority) ⟨q', x :: log⟩ :=
  h.next x hplain ⟨hstep, rfl⟩

/-- The runs of `schedule`, `deschedule` and whole calls of `serviceOne` are among these. -/
theorem QueueRun.logged {priority : ι → Priority} {s : Traced ι} (h : QueueRun priority s) :
    ∃ log, Reach Logged.Step Logged.Plain (.start priority) ⟨s.queue, log⟩ := by
  have hcall : ∀ {s s' : Traced ι}, CallStep s s' →
      (∃ log, Reach Logged.Step Logged.Plain (.start priority) ⟨s.queue, log⟩) →
      ∃ log, Reach Logged.Step Logged.Plain (.start priority) ⟨s'.queue, log⟩ := by
    rintro s s' hstep ⟨log, hs⟩
    cases hstep with
    | schedule hrun => exact ⟨_, Logged.reach_next hs (by simp) (.schedule hrun)⟩
    | deschedule hrun => exact ⟨_, Logged.reach_next hs (by simp) (.deschedule hrun)⟩
    | thrown hrun => exact ⟨_, Logged.reach_next hs (by simp) (.notFound hrun)⟩
  induction h with
  | refl => exact ⟨[], .start⟩
  | tail _ hstep ih =>
    cases hstep with
    | call h => exact hcall h ih
    | serviceOne htake hprocess =>
      obtain ⟨log, hs⟩ := ih
      induction hprocess with
      | refl => exact ⟨_, Logged.reach_next hs (by simp) (.process htake)⟩
      | tail _ h ih => exact hcall h ih

/-- **Causality.** In every state of every run of `schedule`, `deschedule` and `serviceOne`, also
inside the callbacks: every pending event is due at or after the clock, and the clock does not go
back in any continuation of the run; it moves when a callback starts only. A callback that starts is
that of a pending event which is minimal in `(when, priority)`. Every callback of `e` that has
started saw the clock at the time given by the last call of `schedule` for `e`, which is also the
last thing that had happened to `e`; so between a call of `schedule` for `e` and the next one `e` is
processed at most once. -/
theorem simulation_causal {priority : ι → Priority} {s : Logged ι}
    (h : Reach Logged.Step Logged.Plain (.start priority) s) :
    (∀ e, s.queue.scheduled e = true → s.queue.curTick ≤ s.queue.when e) ∧
      (∀ s', Reach Logged.Step Logged.Plain s s' → s.queue.curTick ≤ s'.queue.curTick) ∧
      (∀ x s', s.Plain x → s.Step x s' → s'.queue.curTick = x.clock s.queue.curTick) ∧
      (∀ e t s', s.Step (.process e t) s' → s.queue.scheduled e = true ∧
        t = s.queue.when e ∧ ∀ y, s.queue.scheduled y = true → s.queue.key e ≤ s.queue.key y) ∧
      (∀ later e t earlier, s.log = later ++ .process e t :: earlier → Armed earlier e t) ∧
      (∀ later since e w earlier, s.log = later ++ since ++ .schedule e w :: earlier →
        (∀ w', Entry.schedule e w' ∉ since) → since.countP (Entry.isProcess e) ≤ 1) := by
  have hgood := Logged.reach_good h
  obtain ⟨a, ha, hc⟩ := hgood
  refine ⟨?_, fun s' h' => (Logged.curTick_le_of_reach ⟨a, ha, hc⟩ h').2, ?_, ?_, hc.processed,
    fun later since e w earlier hlog hsince =>
      Logged.process_at_most_once hc.processed later hlog hsince⟩
  · intro e he
    rw [← ha.curTick, ← ha.when]
    exact hc.due e (ha.mem_pending.mpr he)
  · intro x s' hplain hstep
    obtain ⟨a', hstep', ha'⟩ := hstep.1.simulates hplain.idle ha
    rw [← ha'.curTick, ← ha.curTick]
    exact hstep'.curTick
  · intro e t s' hstep
    obtain ⟨a', hstep', ha'⟩ := hstep.1.simulates (by simp [Logged.Idle]) ha
    cases hstep' with
    | @process _ rest hp =>
      refine ⟨ha.mem_pending.mp (by simp [hp]), by rw [ha.when], fun y hy => ?_⟩
      have hsorted := ha.keySorted
      have hmem := ha.mem_pending.mpr hy
      rw [hp] at hsorted hmem
      rcases List.mem_cons.mp hmem with rfl | hmem
      · exact le_rfl
      · exact (List.pairwise_cons.mp hsorted).1 y hmem

/-- An event scheduled twice for tick 3, once from its own callback, is processed twice. -/
theorem simulation_causal_twice :
    ∃ s : Logged Unit, Reach Logged.Step Logged.Plain (.start fun _ => 0) s ∧
      s.log = [.process () 3, .schedule () 3, .process () 3, .schedule () 3] ∧
      s.queue.curTick = 3 ∧ Armed [.schedule () 3, .process () 3, .schedule () 3] () 3 := by
  have h1 := Logged.reach_next (Reach.start : Reach Logged.Step Logged.Plain (.start fun _ => 0) _)
    (by simp) (@EntryStep.schedule Unit _ _ _ 1 () 3 rfl)
  have h2 := Logged.reach_next h1 (by simp) (.process rfl)
  have h3 := Logged.reach_next h2 (by simp) (@EntryStep.schedule Unit _ _ _ 1 () 3 rfl)
  have h4 := Logged.reach_next h3 (by simp) (.process rfl)
  exact ⟨_, h4, rfl, rfl, (simulation_causal h4).2.2.2.2.1 [] () 3 _ rfl⟩

end NetSim.Event
