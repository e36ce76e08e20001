import Mathlib.Data.Finset.Card
import NetSim.System.Arming

/-!
# The loop of `main` ends

Events schedule each other for ever, so the queue never runs empty and the loop ends by its bound on
the clock. A turn takes the first pending event and schedules events for the next tick only. So the
ticks that are left, and within a tick the events that are still pending at it, get fewer with every
turn, and no event object is serviced twice in a tick. The handlers themselves return: the chains of
nested port calls are bounded.
-/

namespace NetSim.System

open Common Library Event Arbiter Dram Buffer Relation

variable {n : Nat} {μ : Type}

/-! ## The queue of a turn -/

/-- What is pending was pending before and is due as before, or is due in the next tick. -/
structure Later (q q' : EventQueue (ObjEvent n)) : Prop where
  sound : Sound q'
  curTick : q'.curTick = q.curTick
  pending : ∀ e, q'.scheduled e = true →
    (q.scheduled e = true ∧ q'.when e = q.when e) ∨ q'.when e = q.curTick + 1

theorem Later.refl {q : EventQueue (ObjEvent n)} (h : Sound q) : Later q q :=
  ⟨h, rfl, fun _ he => .inl ⟨he, rfl⟩⟩

theorem Later.schedule {q q' q'' : EventQueue (ObjEvent n)} {fuel : Nat} {e : ObjEvent n}
    (h : Later q q') (hrun : q'.schedule fuel e (q'.curTick + 1) = .ok q'') : Later q q'' := by
  obtain ⟨hsound, -, hset, hclock, hwhen⟩ := h.sound.schedule_ok hrun
  refine ⟨hsound, hclock.trans h.curTick, fun x hx => ?_⟩
  rw [hset] at hx
  rw [hwhen]
  by_cases hxe : x = e
  · rw [hxe, Function.update_self, h.curTick]
    exact .inr rfl
  · rw [Function.update_of_ne hxe] at hx ⊢
    exact h.pending x hx

theorem Arms.later {q q' : EventQueue (ObjEvent n)} (h : Arms q q') (hs : Sound q) :
    Later q q' := by
  induction h with
  | refl => exact .refl hs
  | tail _ hnext ih =>
    obtain ⟨e, -, hrun⟩ := hnext
    exact ih.schedule hrun

/-! ## One turn -/

variable {w w' : World (Plant n μ)}

/-- When the event is taken its flag is cleared, and so is the copy. -/
theorem taken_flags {e : ObjEvent n} {q : EventQueue (ObjEvent n)} (x : ObjEvent n) :
    flagOf (taken e q w) x = (flagOf w x).map (· && decide (x ≠ e)) := by
  rcases e with ((_ | _) | _ | _) | up | up <;> rcases x with ((_ | _) | _ | _) | up' | up' <;>
    simp [flagOf, taken, clearCopy, World.clearArbEvent, World.clearSendResponseEvent,
      World.setArb, Function.update_apply]
  all_goals
    by_cases hup : up' = up
    · simp [hup]
    · simp [hup]

theorem taken_rest (e : ObjEvent n) (q : EventQueue (ObjEvent n)) (w : World (Plant n μ)) :
    (taken e q w).rest.queue = q ∧ (taken e q w).rest.failed = w.rest.failed ∧
      (taken e q w).rest.hung = w.rest.hung := by
  rcases e with ((_ | _) | _ | _) | up | up <;> exact ⟨rfl, rfl, rfl⟩

theorem taken_calls (e : ObjEvent n) (q : EventQueue (ObjEvent n)) (w : World (Plant n μ)) :
    (taken e q w).calls = w.calls := by
  rcases e with ((_ | _) | _ | _) | up | up <;> rfl

theorem Wired.taken {e : ObjEvent n} {q : EventQueue (ObjEvent n)} (h : Wired w)
    (htake : w.rest.queue.takeHead = .ok (e, q)) : Wired (taken e q w) := by
  obtain ⟨hsound, -, hcleared, -⟩ := h.sound.takeHead htake
  obtain ⟨hqueue, -, -⟩ := taken_rest e q w
  refine ⟨?_, fun x flag hx => ?_⟩
  · rw [hqueue]
    exact hsound
  · rw [taken_flags] at hx
    obtain ⟨f, hf, rfl⟩ := Option.map_eq_some_iff.mp hx
    rw [hqueue, hcleared, ← h.flags x f hf]
    by_cases hxe : x = e
    · simp [hxe]
    · simp [hxe]

section Iteration

variable {c : Config} {M : MemorySystem μ} {s s' : Simulation c.numUpstreams μ}
variable {v v' : World (Plant c.numUpstreams μ)} {e : ObjEvent c.numUpstreams}

/-- What a callback that returns has done to the queue. -/
theorem mainProcess_later (hv : Wired v) (h : mainProcess c M v e = .ok v') :
    Wired v' ∧ v'.rest.hung = v.rest.hung ∧
      (v'.rest.failed = false → v.rest.failed = false ∧ Later v.rest.queue v'.rest.queue) := by
  by_cases hne : e = .component .wrapperTick
  · subst hne
    obtain ⟨u, hsteady, rfl⟩ := mainWrapperTick_ok h
    obtain ⟨hu, hhung, hrun⟩ := hsteady hv
    split
    · refine ⟨hu, hhung, fun hf => ⟨(hrun hf).1, ?_⟩⟩
      exact (hrun hf).2.later hv.sound
    · obtain ⟨hwired, hhung', hrun'⟩ := hu.schedule_self (e := .component .wrapperTick) rfl
      refine ⟨hwired, hhung'.trans hhung, fun hf => ?_⟩
      obtain ⟨hfailed, hschedule⟩ := hrun' hf
      obtain ⟨hfailed', harms⟩ := hrun hfailed
      exact ⟨hfailed', (harms.later hv.sound).schedule hschedule⟩
  · obtain ⟨hwired, hhung, hrun⟩ := mainProcess_steady hne h hv
    exact ⟨hwired, hhung, fun hf => ⟨(hrun hf).1, (hrun hf).2.later hv.sound⟩⟩

/-- The loop goes on. -/
theorem mainTurn_next (h : Goes (mainTurn c M) s s') :
    s.world.rest.queue.curTick < maxTick ∧ ∃ e q,
      s.world.rest.queue.takeHead = .ok (e, q) ∧
      mainProcess c M (taken e q s.world) e = .ok s'.world ∧
      s'.world.rest.hung = false ∧ s'.world.rest.failed = false ∧
      s'.services = (e, q.curTick) :: s.services := by
  unfold Goes mainTurn at h
  split at h
  · cases h
  · rename_i hcond
    simp only [Bool.or_eq_true, decide_eq_true_eq, not_or] at hcond
    refine ⟨Nat.lt_of_not_le hcond.2, ?_⟩
    split at h
    · cases h
    · rename_i e q htake
      split at h
      · cases h
      · rename_i u hprocess
        split at h
        · cases h
        · rename_i hhung
          split at h
          · cases h
          · rename_i hfailed
            cases h
            exact ⟨e, q, htake, hprocess, by simpa using hhung, by simpa using hfailed, rfl⟩

/-- The invariant of the loop: what is pending is not in the past, and after the last service of its
event object; no service is listed twice. -/
structure Orderly (s : Simulation n μ) : Prop where
  wired : Wired s.world
  running : s.world.rest.hung = false
  due : ∀ e, s.world.rest.queue.scheduled e = true →
    s.world.rest.queue.curTick ≤ s.world.rest.queue.when e
  nodup : s.services.Nodup
  past : ∀ e t, (e, t) ∈ s.services → t ≤ s.world.rest.queue.curTick
  fresh : ∀ e t, s.world.rest.queue.scheduled e = true → (e, t) ∈ s.services →
    t < s.world.rest.queue.when e

/-- The queue before and after a turn: the event `e` was taken. -/
structure Moved (q q' : EventQueue (ObjEvent n)) (e : ObjEvent n) : Prop where
  head : q.scheduled e = true ∧ ∀ x, q.scheduled x = true → q.when e ≤ q.when x
  curTick : q'.curTick = q.when e
  pending : ∀ x, q'.scheduled x = true →
    (x ≠ e ∧ q.scheduled x = true ∧ q'.when x = q.when x) ∨ q'.when x = q.when e + 1

theorem Orderly.turn (hs : Orderly s) (h : Goes (mainTurn c M) s s') :
    ∃ e, Moved s.world.rest.queue s'.world.rest.queue e ∧ Wired s'.world ∧
      s'.services = (e, s.world.rest.queue.when e) :: s.services := by
  obtain ⟨-, e, q, htake, hprocess, -, hfailed, hservices⟩ := mainTurn_next h
  obtain ⟨-, hhead, hcleared, hwhen, hclock, hfirst⟩ := hs.wired.sound.takeHead htake
  obtain ⟨hqueue, -, -⟩ := taken_rest e q s.world
  obtain ⟨hwired, -, hrun⟩ := mainProcess_later (hs.wired.taken htake) hprocess
  obtain ⟨-, hlater⟩ := hrun hfailed
  rw [hqueue] at hlater
  refine ⟨e, ⟨⟨hhead, hfirst⟩, hlater.curTick.trans hclock, fun x hx => ?_⟩, hwired, ?_⟩
  · rcases hlater.pending x hx with ⟨hold, hsame⟩ | hnew
    · rw [hcleared] at hold
      by_cases hxe : x = e
      · rw [hxe, Function.update_self] at hold
        cases hold
      · rw [Function.update_of_ne hxe] at hold
        rw [hwhen] at hsame
        exact .inl ⟨hxe, hold, hsame⟩
    · rw [hclock] at hnew
      exact .inr hnew
  · rw [hservices, hclock]

theorem Orderly.next (hs : Orderly s) (h : Goes (mainTurn c M) s s') : Orderly s' := by
  obtain ⟨-, -, -, -, -, hhung, -, -⟩ := mainTurn_next h
  obtain ⟨e, hmoved, hwired, hservices⟩ := hs.turn h
  have hclock : s.world.rest.queue.curTick ≤ s.world.rest.queue.when e := hs.due e hmoved.head.1
  refine ⟨hwired, hhung, fun x hx => ?_, ?_, fun x t ht => ?_, fun x t hx ht => ?_⟩
  · rw [hmoved.curTick]
    rcases hmoved.pending x hx with ⟨-, hold, hsame⟩ | hnew
    · rw [hsame]
      exact hmoved.head.2 x hold
    · rw [hnew]
      exact Nat.le_succ _
  · rw [hservices, List.nodup_cons]
    refine ⟨fun hmem => ?_, hs.nodup⟩
    exact Nat.lt_irrefl _ (hs.fresh e _ hmoved.head.1 hmem)
  · rw [hmoved.curTick]
    rw [hservices] at ht
    rcases List.mem_cons.mp ht with heq | hold
    · cases heq
      exact Nat.le_refl _
    · exact (hs.past x t hold).trans hclock
  · rw [hservices] at ht
    rcases hmoved.pending x hx with ⟨hxe, hold, hsame⟩ | hnew
    · rw [hsame]
      rcases List.mem_cons.mp ht with heq | hmem
      · cases heq
        exact absurd rfl hxe
      · exact hs.fresh x t hold hmem
    · rw [hnew]
      rcases List.mem_cons.mp ht with heq | hmem
      · cases heq
        exact Nat.lt_succ_self _
      · exact Nat.lt_succ_of_le ((hs.past x t hmem).trans hclock)

end Iteration

/-! ## The measure -/

/-- The events that are pending at the current tick. -/
def dueNow (q : EventQueue (ObjEvent n)) : Finset (ObjEvent n) :=
  (ObjEvent.all n).toFinset.filter fun e => q.scheduled e = true ∧ q.when e = q.curTick

/-- The turns that are left: all event objects in every tick that is left, and those that are
pending at the current tick. -/
def turnsLeft (s : Simulation n μ) : Nat :=
  (maxTick - s.world.rest.queue.curTick) * (ObjEvent.all n).toFinset.card +
    (dueNow s.world.rest.queue).card

theorem ObjEvent.mem_toFinset (e : ObjEvent n) : e ∈ (ObjEvent.all n).toFinset :=
  List.mem_toFinset.mpr e.mem_all

/-- After a turn the event that was taken is not pending at the current tick, and no other event has
become so. -/
theorem Moved.dueNow_subset {q q' : EventQueue (ObjEvent n)} {e : ObjEvent n} (h : Moved q q' e) :
    dueNow q' ⊆ (ObjEvent.all n).toFinset.erase e ∧
      ∀ x ∈ dueNow q', q.scheduled x = true ∧ q.when x = q.when e := by
  have hcases : ∀ x ∈ dueNow q', x ≠ e ∧ q.scheduled x = true ∧ q.when x = q.when e := by
    intro x hx
    obtain ⟨-, hpending, hnow⟩ := Finset.mem_filter.mp hx
    rw [h.curTick] at hnow
    rcases h.pending x hpending with ⟨hxe, hold, hsame⟩ | hnew
    · exact ⟨hxe, hold, hsame.symm.trans hnow⟩
    · rw [hnew] at hnow
      exact absurd hnow (Nat.succ_ne_self _)
  exact ⟨fun x hx => Finset.mem_erase.mpr ⟨(hcases x hx).1, x.mem_toFinset⟩,
    fun x hx => (hcases x hx).2⟩

section Measure

variable {c : Config} {M : MemorySystem μ} {s s' : Simulation c.numUpstreams μ}

/-- The measure is lexicographic: either the clock moves on, or an event of this tick is done. -/
theorem turnsLeft_lt (hs : Orderly s) (h : Goes (mainTurn c M) s s') :
    turnsLeft s' < turnsLeft s := by
  obtain ⟨hlimit, -⟩ := mainTurn_next h
  obtain ⟨e, hmoved, -, -⟩ := hs.turn h
  obtain ⟨hsub, hold⟩ := hmoved.dueNow_subset
  have hdue := hs.due e hmoved.head.1
  unfold turnsLeft
  rw [hmoved.curTick]
  rcases Nat.eq_or_lt_of_le hdue with hnow | hlater
  · -- the event was pending at the current tick
    rw [← hnow]
    apply Nat.add_lt_add_left
    apply Finset.card_lt_card
    rw [Finset.ssubset_iff_of_subset]
    · refine ⟨e, Finset.mem_filter.mpr ⟨e.mem_toFinset, hmoved.head.1, hnow.symm⟩, fun he => ?_⟩
      exact (Finset.mem_erase.mp (hsub he)).1 rfl
    · intro x hx
      obtain ⟨hpending, hwhen⟩ := hold x hx
      exact Finset.mem_filter.mpr ⟨x.mem_toFinset, hpending, hwhen.trans hnow.symm⟩
  · -- the clock has moved on
    have hfew : (dueNow s'.world.rest.queue).card < (ObjEvent.all c.numUpstreams).toFinset.card :=
      (Finset.card_le_card hsub).trans_lt (Finset.card_erase_lt_of_mem e.mem_toFinset)
    have hticks : maxTick - s.world.rest.queue.when e + 1 ≤
        maxTick - s.world.rest.queue.curTick := by
      have hle := Nat.sub_le_sub_left (Nat.succ_le_of_lt hlater) maxTick
      have hpos : 0 < maxTick - s.world.rest.queue.curTick := Nat.sub_pos_of_lt hlimit
      rw [Nat.sub_succ] at hle
      exact Nat.succ_le_of_lt (hle.trans_lt (Nat.pred_lt hpos.ne'))
    calc _ < (maxTick - s.world.rest.queue.when e + 1) *
          (ObjEvent.all c.numUpstreams).toFinset.card := by
          rw [Nat.add_mul, Nat.one_mul]
          exact Nat.add_lt_add_left hfew _
      _ ≤ (maxTick - s.world.rest.queue.curTick) *
          (ObjEvent.all c.numUpstreams).toFinset.card := Nat.mul_le_mul_right _ hticks
      _ ≤ _ := Nat.le_add_right _ _

theorem turnsLeft_le (s : Simulation n μ) :
    turnsLeft s ≤ (maxTick + 1) * (ObjEvent.all n).length := by
  have hcard : (ObjEvent.all n).toFinset.card ≤ (ObjEvent.all n).length :=
    List.toFinset_card_le _
  have hdue : (dueNow s.world.rest.queue).card ≤ (ObjEvent.all n).toFinset.card :=
    Finset.card_filter_le _ _
  unfold turnsLeft
  rw [Nat.add_mul, Nat.one_mul]
  refine Nat.add_le_add ?_ (hdue.trans hcard)
  exact Nat.mul_le_mul (Nat.sub_le _ _) hcard

/-- The body of the loop returns. -/
theorem mainTurn_ne_hang (hs : Orderly s) : mainTurn c M s ≠ .hang := by
  unfold mainTurn
  split
  · nofun
  · split
    · nofun
    · rename_i e q htake
      split
      · nofun
      · rename_i v hprocess
        obtain ⟨-, -, hhung⟩ := taken_rest e q s.world
        obtain ⟨-, hsame, -⟩ := mainProcess_later (hs.wired.taken htake) hprocess
        rw [hsame, hhung, hs.running]
        split
        · contradiction
        · split <;> nofun

end Measure

/-! ## Nested port calls -/

theorem react_atMost {ρ : Type} (up : Fin n) {r : Reaction n UpBuffer ρ} {k : Nat}
    (h : r.AtMost k) (p : Plant n μ) : (p.react up r).AtMost k := by
  induction r generalizing k p with
  | done result b => trivial
  | request bank target pkt b next ih =>
    obtain ⟨j, rfl, hnext⟩ := h
    exact ⟨j, rfl, fun accepted p => ih _ _ (hnext accepted (p.buffers up)) p⟩

theorem sendpktFrom_atMost (up : Fin n) (ports : List PortId) (b : UpBuffer) :
    ∀ k, ports.length ≤ k → (UpBuffer.sendpktFrom up ports b).AtMost k := by
  induction ports generalizing b with
  | nil => exact fun _ _ => trivial
  | cons port ports ih =>
    intro k hk
    rw [List.length_cons] at hk
    unfold UpBuffer.sendpktFrom
    split
    · exact ih _ k (by omega)
    · exact ⟨k - 1, by omega, fun accepted b => ih _ (k - 1) (by omega)⟩

theorem sendRetryReq_atMost (up : Fin n) (port : PortId) (b : UpBuffer) :
    (UpBuffer.sendRetryReq up port b).AtMost 1 :=
  ⟨0, rfl, fun _ _ => trivial⟩

section Calls

variable {c : Config} {M : MemorySystem μ} {v v' : World (Plant c.numUpstreams μ)}
variable {w w' : World (Plant n μ)} {bank : Bank}

/-- A buffer makes no request when it gets a response, and one when it gets a retry. -/
theorem mainPeers_answers : (mainPeers c M).Answers 0 1 where
  sendTimingResp bank up pkt p := by
    by_cases hup : up < c.numUpstreams
    · rw [show (mainPeers c M).sendTimingResp bank up pkt p = .done _ _ from dif_pos hup]
      trivial
    · rw [show (mainPeers c M).sendTimingResp bank up pkt p = .done _ _ from dif_neg hup]
      trivial
  recvReqRetry bank up p := by
    by_cases hup : up < c.numUpstreams
    · rw [show (mainPeers c M).recvReqRetry bank up p = p.react ⟨up, hup⟩ _ from dif_pos hup]
      exact react_atMost _ (sendRetryReq_atMost _ bank _) p
    · rw [show (mainPeers c M).recvReqRetry bank up p = .done _ _ from dif_neg hup]
      trivial

theorem mainComplete_calls (w : World (Plant n μ)) (t : Completion) (w' : World (Plant n μ))
    (h : mainComplete M w t = .ok w') : w'.calls = w.calls := by
  unfold mainComplete at h
  dsimp only at h
  split at h
  · obtain ⟨pkt, rest, -, -, rfl⟩ := writeComplete_ok h
    rfl
  · obtain ⟨pkt, rest, -, -, rfl⟩ := readComplete_ok h
    unfold Dram.accessAndRespond
    dsimp only
    split <;> rfl

theorem mainWrapperTick_calls (h : mainWrapperTick M w = .ok w') : w'.calls = w.calls := by
  unfold mainWrapperTick at h
  dsimp only at h
  split at h
  · cases h
  · rename_i v hdone
    have hcalls := foldlM_relates (fun w w' : World (Plant n μ) => w'.calls = w.calls)
      (fun _ => rfl) (fun _ _ _ h h' => Eq.trans h' h) mainComplete_calls hdone
    split at h
    · cases h
      exact hcalls
    · cases h
      exact hcalls

/-- The longest chains of calls are those of a pass of `sendResponse` of the arbiter: for every bank
and upstream a response, a retry and a request. -/
theorem mainProcess_calls {e : ObjEvent c.numUpstreams} (h : mainProcess c M v e = .ok v') :
    v'.calls ≤ v.calls + 24 * c.numUpstreams := by
  have hpos := c.numUpstreams_pos
  rcases e with ((_ | _) | ⟨bank, _ | _⟩ | _) | up | up
  · cases h
    refine (arbitrate_calls v).trans ?_
    simp only [numBanks]
    omega
  · cases h
    refine (sendResponse_calls mainPeers_answers v).trans ?_
    simp only [numBanks]
    omega
  · cases h
    unfold tick
    split
    · rw [handleReqRetry_calls]
      show v.calls + 1 ≤ _
      omega
    · omega
  · obtain ⟨-, pkt, rest, success, u, -, hsend, rfl⟩ := sendResponse_ok h
    have hcalls := recvTimingResp_calls (mainRespond_ok hsend)
    show u.calls ≤ _
    omega
  · rw [mainWrapperTick_calls h]
    omega
  · cases h
    refine (Reaction.run_calls (react_atMost up (sendpktFrom_atMost up banks _ 8 ?_) _) v).trans ?_
    · exact Nat.le_of_eq rfl
    · omega
  · cases h
    show v.calls ≤ _
    omega

end Calls

/-! ## Every run -/

section Main

variable {c : Config} (M : MemorySystem μ) (addrInit : Fin c.numUpstreams → Addr)
variable (retryResp : Fin c.numUpstreams → PortId → Bool) (m : μ)

/-- `dramsim3_wrapper::init` returns, and the clock event is the only one that is pending. -/
theorem Plant.init_spec (addrInit : Fin n → Addr) (retryResp : Fin n → PortId → Bool) (m : μ) :
    ∃ q, (EventQueue.init fun _ : ObjEvent n => 0).schedule ((ObjEvent.all n).length + 1)
        (.component .wrapperTick) 0 = .ok q ∧
      (Plant.init addrInit retryResp m).queue = q ∧
      (Plant.init addrInit retryResp m).hung = false ∧
      Wired (World.init (Plant.init addrInit retryResp m)) ∧
      (Plant.init addrInit retryResp m).failed = false ∧ q.curTick = 0 := by
  let p : Plant n μ :=
    { queue := .init fun _ => 0
      drams := fun _ => .init
      memory := m
      buffers := fun up => .init up (addrInit up) (retryResp up)
      failed := false
      hung := false }
  rcases Plant.scheduleAt_cases (p := p) (Sound.init _) (.component .wrapperTick)
    (Nat.le_refl 0) with ⟨hpending, -⟩ | ⟨q, hrun, hsound, heq, hset⟩
  · cases hpending
  · have hinit : Plant.init addrInit retryResp m = { p with queue := q } := heq
    rw [hinit]
    refine ⟨q, hrun, rfl, rfl, ⟨hsound, fun e flag he => ?_⟩, rfl,
      ((Sound.init _).schedule_ok hrun).2.2.2.1⟩
    change q.scheduled e = flag
    rw [hset]
    rcases e with ((_ | _) | _ | _) | up | up <;> cases he <;> rfl

variable {M} in
/-- No assert fails in `init`: the only event that the buffers make the arbiter schedule is
`arbEvent`, and only while it is not pending. -/
theorem scheduleArbEvent_failed {v : World (Plant c.numUpstreams μ)} (hv : Wired v) :
    (scheduleArbEvent c (mainPeers c M) v).rest.failed = v.rest.failed := by
  unfold scheduleArbEvent
  split
  · rfl
  · rename_i hfree
    have hflag := hv.flags (.component (.arb .arb)) v.arb.arbEvent rfl
    rcases Plant.scheduleAt_cases hv.sound (.component (.arb .arb))
      (Nat.le_succ v.rest.queue.curTick) with ⟨hpending, -⟩ | ⟨q, -, -, heq, -⟩
    · exact absurd (hflag.symm.trans hpending) hfree
    · show (v.rest.scheduleAt _ _).failed = _
      rw [heq]

variable {M} in
theorem recvTimingReqUp_failed {v : World (Plant c.numUpstreams μ)} (hv : Wired v) (pkt : Packet)
    (bank : Bank) (up : Nat) :
    (recvTimingReqUp c (mainPeers c M) pkt bank up v).2.rest.failed = v.rest.failed := by
  unfold recvTimingReqUp
  cases haccept : acceptRequest c v.arb pkt bank up with
  | none => rfl
  | some a =>
    obtain ⟨harb, hresp⟩ := acceptRequest_flags haccept
    have hset : Steady v (v.setArb a) := .setArb harb hresp
    exact scheduleArbEvent_failed (hset hv).1

variable {M} in
theorem react_run_failed {ρ : Type} (up : Fin c.numUpstreams)
    (r : Reaction c.numUpstreams UpBuffer ρ) {v : World (Plant c.numUpstreams μ)} (hv : Wired v)
    (hr : FlagsKept (v.rest.buffers up) r) :
    ((v.rest.react up r).run c (mainPeers c M) v).2.rest.failed = v.rest.failed := by
  induction r generalizing v with
  | done result b =>
    show (v.rest.setBuffer up b).failed = _
    rw [setBuffer_eq_putBuffer hr]
    rfl
  | request bank target pkt b next ih =>
    have hfirst : Wired { v with rest := v.rest.setBuffer up b } := (setBuffer_sameFlags hr.1 hv).1
    have hsecond := (recvTimingReqUp_steady (M := M) pkt bank target.val _ hfirst).1
    refine (ih _ _ hsecond (hr.2 _ _)).trans ((recvTimingReqUp_failed hfirst pkt bank _).trans ?_)
    show (v.rest.setBuffer up b).failed = _
    rw [setBuffer_eq_putBuffer hr.1]
    rfl

/-- What `init` of the buffers has done. -/
theorem mainInit_steady :
    Steady (World.init (Plant.init addrInit retryResp m))
        (mainInit c M addrInit retryResp m).world ∧
      (mainInit c M addrInit retryResp m).world.rest.failed =
        (Plant.init addrInit retryResp m).failed := by
  obtain ⟨-, -, -, -, hwired, -⟩ := Plant.init_spec addrInit retryResp m
  refine foldl_invariant (fun v => Steady (World.init (Plant.init addrInit retryResp m)) v ∧
    v.rest.failed = (Plant.init addrInit retryResp m).failed) ?_ ⟨.refl _, rfl⟩
  rintro v up - ⟨hsteady, hfailed⟩
  have hkept := initFrom_flagsKept up banks (v.rest.buffers up)
  exact ⟨hsteady.trans (react_run_steady up _ v hkept),
    (react_run_failed up _ (hsteady hwired).1 hkept).trans hfailed⟩

theorem mainInit_orderly : Orderly (mainInit c M addrInit retryResp m) := by
  obtain ⟨q, -, hqueue, hhung, hwired, hfailed, hclock⟩ := Plant.init_spec addrInit retryResp m
  obtain ⟨hsteady, hsame⟩ := mainInit_steady M addrInit retryResp m
  obtain ⟨hwired', hhung', hrun⟩ := hsteady hwired
  obtain ⟨-, harms⟩ := hrun (hsame.trans hfailed)
  have hlater := harms.later hwired.sound
  have hnow : (mainInit c M addrInit retryResp m).world.rest.queue.curTick = 0 := by
    rw [hlater.curTick]
    exact hqueue ▸ hclock
  refine ⟨hwired', hhung'.trans hhung, fun e _ => ?_, List.nodup_nil, ?_, ?_⟩
  · rw [hnow]
    exact Nat.zero_le _
  · intro e t ht
    cases ht
  · intro e t _ ht
    cases ht

/-- The loop of `main` ends, whatever the memory model does: by its condition or by a failed assert,
after at most as many turns as there are event objects in all ticks up to the bound. Before every
turn no service of an event object in one tick is listed twice. A callback that returns has made a
bounded number of port calls, the nested ones included, and what it has scheduled is due in the next
tick. -/
theorem main_loop_ends :
    (∀ fuel, (maxTick + 1) * (ObjEvent.all c.numUpstreams).length < fuel →
      loop (mainTurn c M) fuel (mainInit c M addrInit retryResp m) ≠ .running) ∧
    ∀ s, Iterations (mainTurn c M) (mainInit c M addrInit retryResp m) s → s.services.Nodup ∧
      ∀ e q w, s.world.rest.queue.takeHead = .ok (e, q) →
        mainProcess c M (taken e q s.world) e = .ok w →
        w.calls ≤ s.world.calls + 24 * c.numUpstreams ∧
        (w.rest.failed = false → ∀ x, w.rest.queue.scheduled x = true →
          (q.scheduled x = true ∧ w.rest.queue.when x = q.when x) ∨
            w.rest.queue.when x = q.curTick + 1) := by
  have hinit := mainInit_orderly M addrInit retryResp m
  refine ⟨fun fuel hfuel => ?_, fun s hs => ?_⟩
  · exact loop_ends Orderly turnsLeft (fun s s' hs h => ⟨hs.next h, turnsLeft_lt hs h⟩)
      (fun s hs => mainTurn_ne_hang hs) hinit ((turnsLeft_le _).trans_lt hfuel)
  · have horderly : Orderly s := hs.invariant (fun _ _ hs h => hs.next h) hinit
    refine ⟨horderly.nodup, fun e q w htake hprocess => ⟨?_, fun hfailed => ?_⟩⟩
    · rw [← taken_calls e q s.world]
      exact mainProcess_calls hprocess
    · obtain ⟨hqueue, -, -⟩ := taken_rest e q s.world
      obtain ⟨-, -, hrun⟩ := mainProcess_later (horderly.wired.taken htake) hprocess
      rw [← hqueue]
      exact (hrun hfailed).2.pending

/-- `main` has four buffers, and so 27 event objects. -/
example : (maxTick + 1) * (ObjEvent.all 4).length = 27027 := by decide

/-! ## The clock -/

omit addrInit retryResp m M in
/-- The queue, and the ticks in which the event of the wrapper was serviced. -/
def Simulation.clocked (s : Simulation n μ) : Clocked (ObjEvent n) :=
  ⟨s.world.rest.queue,
    (s.services.filter fun e => e.1 = .component .wrapperTick).map Prod.snd⟩

omit addrInit retryResp m M in
theorem Arms.othersDo {q q' : EventQueue (ObjEvent n)} (h : Arms q q') :
    OthersDo (.component .wrapperTick) q q' :=
  h.lift id fun _ _ ⟨_, hne, hrun⟩ => ⟨_, .schedule hrun, hne, by simp, by simp⟩

variable {M} in
/-- A turn is a service step of the queue in which the other components leave the event of the
wrapper alone. -/
theorem Orderly.clocked {s s' : Simulation c.numUpstreams μ} (hs : Orderly s)
    (h : Goes (mainTurn c M) s s') :
    Clocked.Service (.component .wrapperTick) s.clocked s'.clocked := by
  obtain ⟨-, e, q, htake, hprocess, -, hfailed, hservices⟩ := mainTurn_next h
  obtain ⟨hqueue, -, -⟩ := taken_rest e q s.world
  have hwired := hs.wired.taken htake
  by_cases hne : e = .component .wrapperTick
  · subst hne
    obtain ⟨v, hsteady, hafter⟩ := mainWrapperTick_ok hprocess
    obtain ⟨hv, -, hrun⟩ := hsteady hwired
    have hclocked : s'.clocked = ⟨s'.world.rest.queue, q.curTick :: s.clocked.clockTicks⟩ := by
      simp [Simulation.clocked, hservices]
    rw [hclocked]
    cases hpending : v.rest.queue.scheduled (.component .wrapperTick) with
    | true =>
      rw [if_pos hpending] at hafter
      rw [hafter] at hfailed ⊢
      have hrearm : wrapperRearm 0 (.component .wrapperTick) v.rest.queue = .ok v.rest.queue :=
        if_pos hpending
      exact .tick htake (hqueue ▸ (hrun hfailed).2.othersDo) hrearm
    | false =>
      rw [if_neg (by simp [hpending])] at hafter
      rw [hafter] at hfailed ⊢
      obtain ⟨-, -, hschedule⟩ := hv.schedule_self (e := .component .wrapperTick) rfl
      obtain ⟨hfailed', hrun'⟩ := hschedule hfailed
      exact .tick htake (hqueue ▸ (hrun hfailed').2.othersDo)
        ((wrapperRearm_free hpending).trans hrun')
  · obtain ⟨-, -, hrun⟩ := mainProcess_steady hne hprocess hwired
    have hclocked : s'.clocked = ⟨s'.world.rest.queue, s.clocked.clockTicks⟩ := by
      simp [Simulation.clocked, hservices, hne]
    rw [hclocked]
    exact .other htake hne (hqueue ▸ (hrun hfailed).2.othersDo)

/-- The loop of `main` is a run in which the wrapper is clocked by its event. -/
theorem main_clocked {s : Simulation c.numUpstreams μ}
    (h : Iterations (mainTurn c M) (mainInit c M addrInit retryResp m) s) :
    ∃ s₀, Clocked.Started (.component .wrapperTick) (fun _ => 0) s₀ ∧
      ReflTransGen (Clocked.Service (.component .wrapperTick)) s₀ s.clocked := by
  obtain ⟨q, hrun, hqueue, -, hwired, hfailed, -⟩ := Plant.init_spec addrInit retryResp m
  obtain ⟨hsteady, hsame⟩ := mainInit_steady M addrInit retryResp m
  obtain ⟨-, harms⟩ := (hsteady hwired).2.2 (hsame.trans hfailed)
  refine ⟨(mainInit c M addrInit retryResp m).clocked, ?_, ?_⟩
  · exact .mk .refl hrun (hqueue ▸ harms.othersDo)
  · have hboth : Orderly s ∧ ReflTransGen (Clocked.Service (.component .wrapperTick))
        (mainInit c M addrInit retryResp m).clocked s.clocked := by
      refine h.invariant (I := fun u => Orderly u ∧ ReflTransGen _ _ u.clocked) ?_
        ⟨mainInit_orderly M addrInit retryResp m, .refl⟩
      exact fun u u' hu hgoes => ⟨hu.1.next hgoes, hu.2.tail (hu.1.clocked hgoes)⟩
    exact hboth.2

end Main

end NetSim.System
