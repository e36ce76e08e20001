import NetSim.Event.Causality

/-!
# Servicing all events up to a bound

`EventQueue::serviceEvents(when)` services the head while it is due at or before `when`, and then
sets the clock to `when` whatever it was. A call is read here as a loop whose turns are steps of a
run: the head is handed to `process`, whose callback makes any sequence of calls, and the next turn
looks at the head again.

A call does what it is for when `when` is not before the clock. Otherwise the loop has nothing to
service and the clock is turned back (`serviceEvents_exact_iff`).
-/

namespace NetSim.Event

open Library

variable {ι : Type}

/-! ## The call -/

/-- `EventQueue::setCurTick` -/
def EventQueue.setCurTick (q : EventQueue ι) (newVal : Tick) : EventQueue ι :=
  { q with curTick := newVal }

variable [DecidableEq ι]

/-- The `while` loop of `EventQueue::serviceEvents`. -/
def EventQueue.serviceDue (fuel : Nat) (process : ι → List (Call ι)) (when : Tick) :
    Nat → EventQueue ι → Except (Failure ι) (EventQueue ι)
  | 0, _ => .error .outOfFuel
  | turns + 1, q =>
    match q.head with
    | none => .ok q
    | some head =>
      if q.when head > when then .ok q
      else do
        let q ← q.serviceOne fuel process
        EventQueue.serviceDue fuel process when turns q

/-- `EventQueue::serviceEvents` -/
def EventQueue.serviceEvents (fuel : Nat) (process : ι → List (Call ι)) (when : Tick)
    (turns : Nat) (q : EventQueue ι) : Except (Failure ι) (EventQueue ι) := do
  let q ← q.serviceDue fuel process when turns
  .ok (q.setCurTick when)

namespace Logged

omit [DecidableEq ι] in
/-- The calls that a callback makes. -/
def Calls (s : Logged ι) (x : Entry ι) : Prop := s.Plain x ∧ ∀ e t, x ≠ .process e t

/-- The turns of the loop of `serviceEvents(w)`, with any callbacks. -/
inductive Turns (w : Tick) : Logged ι → Logged ι → Prop
  | done {s : Logged ι} (hhead : ∀ e ∈ s.queue.head, w < s.queue.when e) : Turns w s s
  | turn {s s₁ s₂ s₃ : Logged ι} {e : ι} {t : Tick} (hdue : ∀ e ∈ s.queue.head, s.queue.when e ≤ w)
      (hstart : s.Step (.process e t) s₁) (hcallback : Reach Step Calls s₁ s₂)
      (hrest : Turns w s₂ s₃) : Turns w s s₃

/-- A call of `serviceEvents(w)` that returns. -/
def ServiceEvents (w : Tick) (s s' : Logged ι) : Prop :=
  ∃ u, Turns w s u ∧ s' = ⟨u.queue.setCurTick w, u.log⟩

/-- A call of `schedule` or `deschedule`, the start of a callback, or a call of `serviceEvents`. -/
inductive Act (ι : Type)
  | entry (x : Entry ι)
  | serviceEvents (w : Tick)

def ActStep (s : Logged ι) : Act ι → Logged ι → Prop
  | .entry x, s' => s.Plain x ∧ s.Step x s'
  | .serviceEvents w, s' => s.ServiceEvents w s'

end Logged

/-- The calls of a callback are steps. -/
theorem execAll_calls {fuel : Nat} {cs : List (Call ι)} {s : Logged ι} {q' : EventQueue ι}
    (h : Call.execAll fuel cs s.queue = .ok q') :
    ∃ log, Reach Logged.Step Logged.Calls s ⟨q', log⟩ := by
  induction cs generalizing s with
  | nil =>
    cases h
    exact ⟨s.log, .start⟩
  | cons c cs ih =>
    simp only [Call.execAll, bind, Except.bind] at h
    split at h
    · cases h
    · rename_i q₁ hc
      obtain ⟨x, hx, hstep⟩ : ∃ x, s.Calls x ∧ EntryStep s.queue x q₁ := by
        cases c with
        | schedule e w => exact ⟨.schedule e w, ⟨by simp [Logged.Plain], by simp⟩, .schedule hc⟩
        | deschedule e => exact ⟨.deschedule e, ⟨by simp [Logged.Plain], by simp⟩, .deschedule hc⟩
      obtain ⟨log, hrest⟩ := ih (s := ⟨q₁, x :: s.log⟩) h
      exact ⟨log, (Reach.next x .start hx ⟨hstep, rfl⟩).trans hrest⟩

/-- A call with fixed callbacks that returns is one of these. -/
theorem serviceEvents_ok {fuel turns : Nat} {process : ι → List (Call ι)} {w : Tick}
    {s : Logged ι} {q' : EventQueue ι}
    (h : s.queue.serviceEvents fuel process w turns = .ok q') :
    ∃ log, s.ServiceEvents w ⟨q', log⟩ := by
  have hloop : ∀ (turns : Nat) (s : Logged ι) (q' : EventQueue ι),
      s.queue.serviceDue fuel process w turns = .ok q' → ∃ log, Logged.Turns w s ⟨q', log⟩ := by
    intro turns
    induction turns with
    | zero =>
      intro s q' h
      cases h
    | succ turns ih =>
      intro s q' h
      unfold EventQueue.serviceDue at h
      split at h
      · rename_i hhead
        cases h
        exact ⟨s.log, .done (by simp [hhead])⟩
      · rename_i head hhead
        split at h
        · rename_i hlate
          cases h
          exact ⟨s.log, .done (by simpa [hhead] using hlate)⟩
        · rename_i hdue
          simp only [EventQueue.serviceOne, bind, Except.bind] at h
          split at h
          · cases h
          · rename_i q₂ hservice
            split at hservice
            · cases hservice
            · rename_i r htake
              obtain ⟨log₂, hcallback⟩ :=
                execAll_calls (s := ⟨r.2, .process r.1 r.2.curTick :: s.log⟩) hservice
              obtain ⟨log, hrest⟩ := ih ⟨q₂, log₂⟩ q' h
              exact ⟨log, .turn (by simpa [hhead] using hdue) ⟨.process htake, rfl⟩ hcallback hrest⟩
  simp only [EventQueue.serviceEvents, bind, Except.bind] at h
  split at h
  · cases h
  · rename_i q₁ hdone
    cases h
    obtain ⟨log, hturns⟩ := hloop turns s q₁ hdone
    exact ⟨log, _, hturns, rfl⟩

/-! ## What the call is for -/

/-- The clock after the entries of `log`, latest first, when it was `now` before them. -/
def clockAfter (now : Tick) (log : List (Entry ι)) : Tick := log.foldr (fun x t => x.clock t) now

/-- The first thing that happens to `e` in `log`, latest first, is that it is processed at `t` or
that it is descheduled. -/
def Settled (log : List (Entry ι)) (e : ι) (t : Tick) : Prop :=
  ∃ later x earlier, log = later ++ x :: earlier ∧ (∀ y ∈ earlier, y.event ≠ e) ∧
    (x = .process e t ∨ x = .deschedule e)

/-- What a call of `serviceEvents(w)` is for; `recent` is what happened in it. -/
structure Exact (w : Tick) (s s' : Logged ι) (recent : List (Entry ι)) : Prop where
  log : s'.log = recent ++ s.log
  /-- Nothing that is due is left. -/
  drained : ∀ e, s'.queue.scheduled e = true → w < s'.queue.when e
  /-- What was processed was due, and its last call of `schedule` had not been taken back. -/
  due : ∀ later e t earlier, recent = later ++ .process e t :: earlier →
    t ≤ w ∧ Armed (earlier ++ s.log) e t
  /-- What was pending and due was processed, unless it was descheduled first. -/
  pending : ∀ e, s.queue.scheduled e = true → s.queue.when e ≤ w →
    Settled recent e (s.queue.when e)
  /-- The same for what was scheduled during the call. -/
  scheduled : ∀ later e t earlier, recent = later ++ .schedule e t :: earlier → t ≤ w →
    Settled later e t
  once : ∀ later since e t earlier, s'.log = later ++ since ++ .schedule e t :: earlier →
    (∀ t', Entry.schedule e t' ∉ since) → since.countP (Entry.isProcess e) ≤ 1
  ordered : ∀ later e t between e' t' earlier,
    recent = later ++ .process e t :: (between ++ .process e' t' :: earlier) → t' ≤ t
  /-- The clock does not go back, neither in the loop nor at the end. -/
  clock : ∀ later between earlier, recent = later ++ between ++ earlier →
    clockAfter s.queue.curTick earlier ≤ clockAfter s.queue.curTick (between ++ earlier)
  clock_end : clockAfter s.queue.curTick recent ≤ s'.queue.curTick
  causal : ∀ e, s'.queue.scheduled e = true → s'.queue.curTick ≤ s'.queue.when e

/-! ## Runs and their logs -/

namespace Logged

variable {ok : Logged ι → Entry ι → Prop} {s u : Logged ι} {w : Tick}

theorem log_of_reach (h : Reach Step ok s u) : ∃ recent, u.log = recent ++ s.log := by
  induction h with
  | start => exact ⟨[], rfl⟩
  | next x _ _ hstep ih =>
    obtain ⟨recent, hlog⟩ := ih
    exact ⟨x :: recent, by rw [hstep.2, hlog, List.cons_append]⟩

/-- The state in which a run had a given part of its log. -/
theorem split_reach (h : Reach Step ok s u) (later earlier : List (Entry ι))
    (hlog : u.log = later ++ (earlier ++ s.log)) :
    ∃ v, Reach Step ok s v ∧ Reach Step ok v u ∧ v.log = earlier ++ s.log := by
  induction h generalizing later with
  | start =>
    have hnil : earlier = [] := by
      have hlength := congrArg List.length hlog
      simp only [List.length_append] at hlength
      exact List.length_eq_zero_iff.mp (by omega)
    exact ⟨s, .start, .start, by rw [hnil, List.nil_append]⟩
  | next x hprior hok hstep ih =>
    cases later with
    | nil => exact ⟨_, .next x hprior hok hstep, .start, hlog⟩
    | cons y later =>
      rw [hstep.2, List.cons_append] at hlog
      obtain ⟨v, hsv, hvu, hv⟩ := ih later (List.cons.inj hlog).2
      exact ⟨v, hsv, .next x hvu hok hstep, hv⟩

/-- The step of a run that made a given entry of its log. -/
theorem step_of_log (h : Reach Step ok s u) (later : List (Entry ι)) (x : Entry ι)
    (earlier : List (Entry ι)) (hlog : u.log = later ++ x :: (earlier ++ s.log)) :
    ∃ v v', Reach Step ok s v ∧ ok v x ∧ v.Step x v' ∧ Reach Step ok v' u ∧
      v'.log = x :: (earlier ++ s.log) := by
  obtain ⟨v', hsv, hvu, hv⟩ := split_reach h later (x :: earlier) hlog
  cases hsv with
  | start =>
    have hlength := congrArg List.length hv
    simp only [List.length_append, List.length_cons] at hlength
    omega
  | next y hprior hok hstep =>
    have hcons := hv
    rw [hstep.2, List.cons_append] at hcons
    obtain ⟨rfl, -⟩ := List.cons.inj hcons
    exact ⟨_, v', hprior, hok, hstep, hvu, hv⟩

/-- What the steps of `serviceEvents(w)` have in common. -/
def UpTo (w : Tick) (s : Logged ι) (x : Entry ι) : Prop :=
  s.Plain x ∧ ∀ e t, x = .process e t → t ≤ w

/-- The turns of the loop are a run that ends when the head is not due. -/
theorem Turns.run (h : Turns w s u) :
    Reach Step (UpTo w) s u ∧ ∀ e ∈ u.queue.head, w < u.queue.when e := by
  induction h with
  | done hhead => exact ⟨.start, hhead⟩
  | @turn s s₁ s₂ s₃ e t hdue hstart hcallback _ ih =>
    have ht : t ≤ w := by
      obtain ⟨hstep, -⟩ := hstart
      generalize s₁.queue = q₁ at hstep
      cases hstep with
      | process htake =>
        obtain ⟨hhead, htick⟩ := takeHead_head htake
        rw [htick]
        exact hdue e hhead
    have hfirst : Reach Step (UpTo w) s s₁ :=
      .next _ .start ⟨by simp [Plain], fun _ _ hx => by cases hx; exact ht⟩ hstart
    have hcalls : Reach Step (UpTo w) s₁ s₂ := by
      refine hcallback.mono fun v x hx => ⟨hx.1, fun e t hproc => ?_⟩
      exact absurd hproc (hx.2 e t)
    exact ⟨(hfirst.trans hcalls).trans ih.1, ih.2⟩

end Logged

/-- A pending event stays as it is until it is processed at its time or descheduled. -/
theorem AgendaStep.live_or_settled {a a' : Agenda ι} {x : Entry ι} {e : ι} (h : AgendaStep a x a')
    (he : e ∈ a.pending) :
    (x.event ≠ e ∧ e ∈ a'.pending ∧ a'.when e = a.when e) ∨
      x = .process e (a.when e) ∨ x = .deschedule e := by
  cases h with
  | @schedule e' w hnew hw =>
    have hne : e ≠ e' := fun h => hnew (h ▸ he)
    exact Or.inl ⟨hne.symm, mem_keyedInsert.mpr (Or.inr he), Function.update_of_ne hne ..⟩
  | @reschedule e' w hnew hw =>
    have hne : e ≠ e' := fun h => hnew (h ▸ he)
    exact Or.inl ⟨hne.symm, mem_keyedInsert.mpr (Or.inr he), Function.update_of_ne hne ..⟩
  | @deschedule e' hold =>
    by_cases hne : e = e'
    · exact Or.inr (Or.inr (by rw [hne]))
    · exact Or.inl ⟨Ne.symm hne, (List.mem_erase_of_ne hne).mpr he, rfl⟩
  | @notFound e' hnew =>
    have hne : e ≠ e' := fun h => hnew (h ▸ he)
    exact Or.inl ⟨hne.symm, he, rfl⟩
  | @process e' rest hp =>
    by_cases hne : e = e'
    · exact Or.inr (Or.inl (by rw [hne]))
    · rw [hp] at he
      exact Or.inl ⟨Ne.symm hne, (List.mem_cons.mp he).resolve_left hne, rfl⟩

namespace Logged

variable {s u : Logged ι} {w : Tick}

/-- What is pending when a run starts is still untouched, or it was settled in the run. -/
theorem live_or_settled (hs : s.Good) (h : Reach Step Plain s u) (recent : List (Entry ι))
    (hlog : u.log = recent ++ s.log) {e : ι} (he : s.queue.scheduled e = true) :
    (u.queue.scheduled e = true ∧ u.queue.when e = s.queue.when e) ∨
      Settled recent e (s.queue.when e) := by
  suffices hlive : ∀ {v}, Reach Step Plain s v → ∀ recent, v.log = recent ++ s.log →
      (v.queue.scheduled e = true ∧ v.queue.when e = s.queue.when e ∧
        ∀ y ∈ recent, y.event ≠ e) ∨ Settled recent e (s.queue.when e) by
    rcases hlive h recent hlog with ⟨hpending, hwhen, -⟩ | hsettled
    · exact Or.inl ⟨hpending, hwhen⟩
    · exact Or.inr hsettled
  intro v hv
  induction hv with
  | start =>
    intro recent hlog
    have hnil : recent = [] := by simpa using hlog
    exact Or.inl ⟨he, rfl, by simp [hnil]⟩
  | @next v v' x hprior hplain hstep ih =>
    intro recent hlog
    obtain ⟨recent', hlog'⟩ := log_of_reach hprior
    have hcons : recent = x :: recent' := by
      rw [hstep.2, hlog', ← List.cons_append] at hlog
      exact (List.append_cancel_right hlog).symm
    subst hcons
    rcases ih recent' hlog' with ⟨hpending, hwhen, hother⟩ | ⟨later, y, earlier, rfl, hy, hwhat⟩
    · obtain ⟨a, ha, -⟩ := (curTick_le_of_reach hs hprior).1
      obtain ⟨a', hagenda, ha'⟩ := hstep.1.simulates hplain.idle ha
      have hwhen' : a.when e = s.queue.when e := by rw [ha.when, hwhen]
      rcases hagenda.live_or_settled (ha.mem_pending.mpr hpending) with ⟨hne, hmem, hsame⟩ | hdone
      · refine Or.inl ⟨ha'.mem_pending.mp hmem, ?_, ?_⟩
        · rw [← ha'.when, hsame, hwhen']
        · intro y hy
          rcases List.mem_cons.mp hy with rfl | hy
          · exact hne
          · exact hother y hy
      · exact Or.inr ⟨[], x, recent', rfl, hother, hwhen' ▸ hdone⟩
    · exact Or.inr ⟨x :: later, y, earlier, rfl, hy, hwhat⟩

/-- The clock of a run is that of its log. -/
theorem curTick_eq_clockAfter (hs : s.Good) (h : Reach Step Plain s u) {recent : List (Entry ι)}
    (hlog : u.log = recent ++ s.log) : u.queue.curTick = clockAfter s.queue.curTick recent := by
  induction h generalizing recent with
  | start =>
    have hnil : recent = [] := by simpa using hlog
    rw [hnil]
    rfl
  | @next v v' x hprior hplain hstep ih =>
    obtain ⟨recent', hlog'⟩ := log_of_reach hprior
    have hcons : recent = x :: recent' := by
      rw [hstep.2, hlog', ← List.cons_append] at hlog
      exact (List.append_cancel_right hlog).symm
    obtain ⟨a, ha, -⟩ := (curTick_le_of_reach hs hprior).1
    obtain ⟨a', hagenda, ha'⟩ := hstep.1.simulates hplain.idle ha
    rw [← ha'.curTick, hagenda.curTick, ha.curTick, ih hlog', hcons]
    rfl

/-- The states of a run in the order of its log. -/
theorem clockAfter_mono (hs : s.Good) (h : Reach Step Plain s u)
    (later between earlier : List (Entry ι))
    (hlog : u.log = later ++ (between ++ (earlier ++ s.log))) :
    clockAfter s.queue.curTick earlier ≤ clockAfter s.queue.curTick (between ++ earlier) := by
  obtain ⟨v, hsv, -, hv⟩ := split_reach h later (between ++ earlier) (by simpa using hlog)
  obtain ⟨v', hsv', hv'v, hv'⟩ := split_reach hsv between earlier (by simpa using hv)
  have hgood := (curTick_le_of_reach hs hsv').1
  rw [← curTick_eq_clockAfter hs hsv hv, ← curTick_eq_clockAfter hs hsv' hv']
  exact (curTick_le_of_reach hgood hv'v).2

/-- An event is pending at its time right after the call of `schedule`. -/
theorem Step.pending_of_schedule {e : ι} {t : Tick} (h : s.Step (.schedule e t) u) (hs : s.Good) :
    u.queue.scheduled e = true ∧ u.queue.when e = t := by
  obtain ⟨a, ha, -⟩ := hs
  obtain ⟨a', hagenda, ha'⟩ := h.1.simulates (by simp [Idle]) ha
  cases hagenda with
  | schedule hnew hle =>
    refine ⟨ha'.mem_pending.mp (mem_keyedInsert.mpr (Or.inl rfl)), ?_⟩
    rw [← ha'.when]
    exact Function.update_self ..

/-! ## What the call does -/

/-- After the loop nothing that is due is left. -/
theorem Turns.drained (hs : s.Good) (h : Turns w s u) {e : ι} (he : u.queue.scheduled e = true) :
    w < u.queue.when e := by
  obtain ⟨hrun, hhead⟩ := h.run
  obtain ⟨a, ha, -⟩ := (curTick_le_of_reach hs (hrun.mono fun _ _ hx => hx.1)).1
  exact Sound.le_when_of_head ⟨a, ha⟩ (t := w + 1) (fun x hx => hhead x hx) he

/-- The loop does not move the clock past the bound. -/
theorem curTick_le_of_upTo (hs : s.Good) (h : Reach Step (UpTo w) s u)
    (hw : s.queue.curTick ≤ w) : u.queue.curTick ≤ w := by
  refine (h.invariant (fun v => v.Good ∧ v.queue.curTick ≤ w) ⟨hs, hw⟩ ?_).2
  rintro v x v' - ⟨hgood, hv⟩ hok hstep
  refine ⟨(hstep.good hok.1 hgood).1, ?_⟩
  obtain ⟨a, ha, -⟩ := hgood
  obtain ⟨a', hagenda, ha'⟩ := hstep.1.simulates hok.1.idle ha
  rw [← ha'.curTick, hagenda.curTick, ha.curTick]
  cases x with
  | process e t => exact hok.2 e t rfl
  | schedule e t | reschedule e t | deschedule e | notFound e => exact hv

theorem ServiceEvents.good {s' : Logged ι} (hs : s.Good) (h : s.ServiceEvents w s') : s'.Good := by
  obtain ⟨u, hturns, rfl⟩ := h
  obtain ⟨a, ⟨hshape, hwhen, hpriority, -⟩, hc⟩ :=
    (curTick_le_of_reach hs (hturns.run.1.mono fun _ _ hx => hx.1)).1
  have ha : Refines (u.queue.setCurTick w) { a with curTick := w } := by
    obtain ⟨bins, hv, hp⟩ := hshape
    exact ⟨⟨bins, { hv with }, hp⟩, hwhen, hpriority, rfl⟩
  refine ⟨_, ha, fun e he => ?_, hc.armed, hc.processed⟩
  have hpending : u.queue.scheduled e = true := ha.mem_pending.mp he
  have hdrained := hturns.drained hs hpending
  rw [← hwhen] at hdrained
  exact Nat.le_of_lt hdrained

/-- A call with a bound that is not before the clock. -/
theorem ServiceEvents.exact {s' : Logged ι} (hs : s.Good) (h : s.ServiceEvents w s')
    (hw : s.queue.curTick ≤ w) : ∃ recent, Exact w s s' recent := by
  obtain ⟨u, hturns, rfl⟩ := h
  have hrun := hturns.run.1
  have hplain : Reach Step Plain s u := hrun.mono fun _ _ hx => hx.1
  obtain ⟨a, ha, hc⟩ := (curTick_le_of_reach hs hplain).1
  obtain ⟨recent, hlog⟩ := log_of_reach hplain
  have hdrained : ∀ e, u.queue.scheduled e = true → w < u.queue.when e := fun e he =>
    hturns.drained hs he
  refine ⟨recent, hlog, hdrained, ?_, ?_, ?_, ?_, ?_, ?_, ?_, ?_⟩
  · intro later e t earlier hrecent
    have hsplit : u.log = later ++ .process e t :: (earlier ++ s.log) := by simp [hlog, hrecent]
    obtain ⟨v, v', -, hok, -⟩ := step_of_log hrun later _ earlier hsplit
    exact ⟨hok.2 e t rfl, hc.processed later e t _ hsplit⟩
  · intro e he ht
    rcases live_or_settled hs hplain recent hlog he with ⟨hpending, hwhen⟩ | hsettled
    · have hlate := hdrained e hpending
      rw [hwhen] at hlate
      exact absurd ht (Nat.not_le.mpr hlate)
    · exact hsettled
  · intro later e t earlier hrecent ht
    have hsplit : u.log = later ++ .schedule e t :: (earlier ++ s.log) := by simp [hlog, hrecent]
    obtain ⟨v, v', hsv, hok, hstep, hvu, hv'⟩ := step_of_log hplain later _ earlier hsplit
    have hgood := (curTick_le_of_reach hs hsv).1
    obtain ⟨hpending, hwhen⟩ := hstep.pending_of_schedule hgood
    rcases live_or_settled (hstep.good hok hgood).1 hvu later (by rw [hsplit, hv']) hpending with
      ⟨hstill, hsame⟩ | hsettled
    · have hlate := hdrained e hstill
      rw [hsame, hwhen] at hlate
      exact absurd ht (Nat.not_le.mpr hlate)
    · rwa [hwhen] at hsettled
  · intro later since e t earlier hsplit hsince
    exact process_at_most_once hc.processed later hsplit hsince
  · intro later e t between e' t' earlier hrecent
    have hmono := clockAfter_mono hs hplain later (.process e t :: between)
      (.process e' t' :: earlier) (by simp [hlog, hrecent])
    simpa [clockAfter, Entry.clock] using hmono
  · intro later between earlier hrecent
    exact clockAfter_mono hs hplain later between earlier (by simp [hlog, hrecent])
  · rw [← curTick_eq_clockAfter hs hplain hlog]
    exact curTick_le_of_upTo hs hrun hw
  · intro e he
    exact Nat.le_of_lt (hdrained e he)

theorem reach_act_good {priority : ι → Priority} (h : Reach ActStep Free (start priority) s) :
    s.Good := by
  refine h.invariant Good (start_good priority) fun v act v' _ hv _ hstep => ?_
  cases act with
  | entry x => exact (hstep.2.good hstep.1 hv).1
  | serviceEvents w => exact ServiceEvents.good hv hstep

end Logged

/-- An event is processed at tick 7, and then `serviceEvents(3)` is called: the clock goes back. -/
theorem serviceEvents_turns_back :
    ∃ s s' : Logged Unit, Reach Logged.ActStep Free (.start fun _ => 0) s ∧
      s.ServiceEvents 3 s' ∧ s.queue.curTick = 7 ∧ s'.queue.curTick = 3 ∧
      ¬ ∃ recent, Exact 3 s s' recent := by
  have h1 : Reach Logged.ActStep Free (.start fun _ : Unit => 0) ⟨_, [.schedule () 7]⟩ :=
    .next (.entry _) .start trivial
      ⟨by simp [Logged.Plain], @EntryStep.schedule Unit _ _ _ 1 () 7 rfl, rfl⟩
  have h2 : Reach Logged.ActStep Free (.start fun _ : Unit => 0)
      ⟨_, [.process () 7, .schedule () 7]⟩ :=
    .next (.entry _) h1 trivial ⟨by simp [Logged.Plain], .process rfl, rfl⟩
  refine ⟨_, _, h2, ⟨_, .done ?_, rfl⟩, rfl, rfl, ?_⟩
  · intro e he
    cases he
  · rintro ⟨recent, hexact⟩
    have hnil : recent = [] := by simpa using hexact.log
    have hclock := hexact.clock_end
    rw [hnil] at hclock
    exact absurd hclock (by decide)

/-- **Servicing up to a bound.** In every state of every run, which may contain other calls of
`serviceEvents`, and for all callbacks: the call `serviceEvents(w)`, if it returns, has serviced
exactly what became due at or before `w` without turning the clock back, if and only if `w` is not
before the clock. -/
theorem serviceEvents_exact_iff {priority : ι → Priority} {s : Logged ι}
    (h : Reach Logged.ActStep Free (.start priority) s) (w : Tick) :
    (∀ s', s.ServiceEvents w s' → ∃ recent, Exact w s s' recent) ↔ s.queue.curTick ≤ w := by
  have hs := Logged.reach_act_good h
  constructor
  · intro hexact
    by_contra hlate
    -- nothing is due, so the call returns at once and overwrites the clock
    have hhead : ∀ e ∈ s.queue.head, w < s.queue.when e := by
      intro e he
      obtain ⟨a, ha, hc⟩ := hs
      have hpending : e ∈ a.pending := by
        rw [Option.mem_def, ha.head] at he
        exact List.mem_of_mem_head? he
      have hdue := hc.due e hpending
      rw [ha.curTick, ha.when] at hdue
      exact Nat.lt_of_lt_of_le (Nat.not_le.mp hlate) hdue
    obtain ⟨recent, hrecent⟩ := hexact ⟨s.queue.setCurTick w, s.log⟩ ⟨s, .done hhead, rfl⟩
    have hnil : recent = [] := by simpa using hrecent.log
    have hclock := hrecent.clock_end
    rw [hnil] at hclock
    exact hlate hclock
  · intro hw s' hcall
    exact hcall.exact hs hw

/-- A call that services an event at its bound. -/
theorem serviceEvents_exact_at_bound :
    ∃ s s' : Logged Unit, Reach Logged.ActStep Free (.start fun _ => 0) s ∧
      s.ServiceEvents 5 s' ∧ s.queue.curTick ≤ 5 ∧ s.queue.scheduled () = true ∧
      s'.queue.scheduled () = false ∧ ∃ recent, Exact 5 s s' recent := by
  obtain ⟨q, hq⟩ : ∃ q, (EventQueue.init fun _ : Unit => 0).schedule 1 () 5 = .ok q := ⟨_, rfl⟩
  obtain ⟨q', hq'⟩ : ∃ q', q.serviceEvents 1 (fun _ => []) 5 2 = .ok q' := by
    cases hq
    exact ⟨_, rfl⟩
  have h1 : Reach Logged.ActStep Free (.start fun _ : Unit => 0) ⟨q, [.schedule () 5]⟩ :=
    .next (.entry _) .start trivial ⟨by simp [Logged.Plain], .schedule hq, rfl⟩
  obtain ⟨log, hcall⟩ := serviceEvents_ok (s := ⟨q, [.schedule () 5]⟩) hq'
  have hexact := (serviceEvents_exact_iff h1 5).mpr (by cases hq; decide) _ hcall
  cases hq
  cases hq'
  exact ⟨_, _, h1, hcall, by decide, rfl, rfl, hexact⟩

end NetSim.Event
