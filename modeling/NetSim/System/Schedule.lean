import NetSim.Arbiter.Arbitration
import NetSim.Event.Agenda
import NetSim.Library.Reach
import NetSim.System.Model

/-!
# Which calls of `schedule` can fail

All handlers but one ask `scheduled()` before they schedule an event. The flags that they ask are
those of the queue (`Linked`), so their calls return, and they keep the flags linked (`Keeps`).
The exception is `DRAMsim3::recvTimingReq`: a refused request schedules `tickEvent` whether or not
it is pending. It is called only from a round of arbitration, so a run is free of failed calls
exactly when no turn of a bank makes two refusals before a tick (`CalmTurn`).
-/

namespace NetSim.System

open Common Library Event Arbiter Dram

variable {υ μ : Type} {o : Outside υ μ} {w w' w'' : World (Outside υ μ)} {bank : Bank}

/-! ## The queue -/

theorem EventId.mem_all (e : EventId) : e ∈ EventId.all := by
  cases e with
  | wrapperTick => simp [EventId.all]
  | arb e => cases e <;> simp [EventId.all]
  | dram bank e => cases e <;> simp [EventId.all, banks]

namespace Outside

theorem scheduleAt_free (hs : Sound o.queue) {e : EventId} (he : o.queue.scheduled e = false)
    {t : Tick} (ht : o.queue.curTick ≤ t) :
    ∃ q, o.scheduleAt e t = { o with queue := q } ∧ Sound q ∧
      q.scheduled = Function.update o.queue.scheduled e true := by
  obtain ⟨q, hrun, hq, hflags, -⟩ :=
    hs.schedule he ht EventId.mem_all (Nat.lt_succ_self EventId.all.length)
  refine ⟨q, ?_, hq, hflags⟩
  simp only [scheduleAt, fuel, hrun]

/-- A call leaves the event pending, and fails exactly when it already was. -/
theorem schedule_spec (hs : Sound o.queue) (e : EventId) :
    ∃ q, o.schedule e = { o with queue := q, failed := o.failed || o.queue.scheduled e } ∧
      Sound q ∧ ∀ x, q.scheduled x = (o.queue.scheduled x || decide (x = e)) := by
  cases he : o.queue.scheduled e with
  | true =>
    refine ⟨o.queue, ?_, hs, fun x => ?_⟩
    · simp [schedule, scheduleAt, EventQueue.schedule, he]
    · by_cases hx : x = e
      · simp [hx, he]
      · simp [hx]
  | false =>
    obtain ⟨q, hrun, hq, hflags⟩ := scheduleAt_free hs he (Nat.le_succ o.queue.curTick)
    refine ⟨q, ?_, hq, fun x => ?_⟩
    · simpa [schedule] using hrun
    · rw [hflags]
      by_cases hx : x = e
      · simp [hx]
      · simp [hx]

end Outside

/-! ## Handlers that keep the flags linked -/

/-- The flags of the arbiter are the flags of the queue. -/
structure Linked (w : World (Outside υ μ)) : Prop where
  sound : Sound w.rest.queue
  arb : w.rest.queue.scheduled (.arb .arb) = w.arb.arbEvent
  sendResponse : w.rest.queue.scheduled (.arb .sendResponse) = w.arb.sendResponseEvent

/-- From `w` to `w'` the flags stay linked and no call of `schedule` fails. -/
def Keeps (w w' : World (Outside υ μ)) : Prop :=
  Linked w → Linked w' ∧ w'.rest.failed = w.rest.failed

namespace Keeps

theorem refl (w : World (Outside υ μ)) : Keeps w w := fun h => ⟨h, rfl⟩

theorem trans (h : Keeps w w') (h' : Keeps w' w'') : Keeps w w'' := by
  intro hw
  obtain ⟨hw', hf⟩ := h hw
  obtain ⟨hw'', hf'⟩ := h' hw'
  exact ⟨hw'', hf'.trans hf⟩

/-- Changes of other fields. -/
theorem of_eq (hqueue : w'.rest.queue = w.rest.queue) (hfailed : w'.rest.failed = w.rest.failed)
    (harb : w'.arb.arbEvent = w.arb.arbEvent)
    (hresp : w'.arb.sendResponseEvent = w.arb.sendResponseEvent) : Keeps w w' := by
  intro h
  refine ⟨⟨?_, ?_, ?_⟩, hfailed⟩
  · rw [hqueue]
    exact h.sound
  · rw [hqueue, harb]
    exact h.arb
  · rw [hqueue, hresp]
    exact h.sendResponse

/-- An entry of the log. -/
theorem note (w : World (Outside υ μ)) (e : PortEvent) : Keeps w (w.note e) :=
  of_eq rfl rfl rfl rfl

/-- The arbiter changes, but for the flags of its events. -/
theorem setArb {a : DramArb} (harb : a.arbEvent = w.arb.arbEvent)
    (hresp : a.sendResponseEvent = w.arb.sendResponseEvent) : Keeps w (w.setArb a) :=
  of_eq rfl rfl harb hresp

/-- Everything around the arbiter changes, but for the queue. -/
theorem setRest {o : Outside υ μ} (hqueue : o.queue = w.rest.queue)
    (hfailed : o.failed = w.rest.failed) : Keeps w { w with rest := o } :=
  of_eq hqueue hfailed rfl rfl

/-- Scheduling an event that is not pending; an event of the arbiter has its flag set. -/
theorem schedule {e : EventId} {a : DramArb} (hfree : w.rest.queue.scheduled e = false)
    (harb : a.arbEvent = (w.arb.arbEvent || decide (.arb .arb = e)))
    (hresp : a.sendResponseEvent = (w.arb.sendResponseEvent || decide (.arb .sendResponse = e))) :
    Keeps w { w with arb := a, rest := w.rest.schedule e } := by
  intro h
  obtain ⟨q, heq, hsound, hflags⟩ := Outside.schedule_spec h.sound e
  rw [heq, hfree, Bool.or_false]
  refine ⟨⟨hsound, ?_, ?_⟩, rfl⟩
  · rw [harb, ← h.arb]
    exact hflags _
  · rw [hresp, ← h.sendResponse]
    exact hflags _

/-- Scheduling an event that is not the arbiter's. -/
theorem schedule_other {e : EventId} (hfree : w.rest.queue.scheduled e = false)
    (hother : ∀ a, .arb a ≠ e) : Keeps w { w with rest := w.rest.schedule e } :=
  schedule (a := w.arb) hfree (by simp [hother]) (by simp [hother])

end Keeps

section Arbiter

variable {c : Config} {M : MemorySystem μ} {U : Upstreams c.numUpstreams υ}

theorem scheduleArbEvent_keeps (w : World (Outside υ μ)) :
    Keeps w (scheduleArbEvent c (peers c M U) w) := by
  unfold scheduleArbEvent
  split
  · exact .refl w
  · rename_i hfree
    intro h
    refine Keeps.schedule ?_ ?_ ?_ h
    · simpa [h.arb] using hfree
    · simp
    · simp

theorem scheduleSendResponseEvent_keeps (w : World (Outside υ μ)) :
    Keeps w (scheduleSendResponseEvent c (peers c M U) w) := by
  unfold scheduleSendResponseEvent
  split
  · exact .refl w
  · rename_i hfree
    intro h
    refine Keeps.schedule ?_ ?_ ?_ h
    · simpa [h.sendResponse] using hfree
    · simp
    · simp

theorem acceptRequest_flags {a a' : DramArb} {pkt : Packet} {up : Nat}
    (h : acceptRequest c a pkt bank up = some a') :
    a'.arbEvent = a.arbEvent ∧ a'.sendResponseEvent = a.sendResponseEvent := by
  rcases acceptRequest_cases h with ⟨-, -, rfl⟩ | ⟨-, -, rfl⟩
  · exact ⟨rfl, rfl⟩
  · exact ⟨rfl, rfl⟩

theorem recvTimingReqUp_keeps (pkt : Packet) (bank : Bank) (up : Nat) (w : World (Outside υ μ)) :
    Keeps w (recvTimingReqUp c (peers c M U) pkt bank up w).2 := by
  unfold recvTimingReqUp
  cases haccept : acceptRequest c w.arb pkt bank up with
  | none =>
    have hset : Keeps w (w.setArb (w.arb.setRetryReq bank up true)) := .setArb rfl rfl
    exact hset.trans (.note _ _)
  | some a =>
    obtain ⟨harb, hresp⟩ := acceptRequest_flags haccept
    have hset : Keeps w (w.setArb a) := .setArb harb hresp
    exact (hset.trans (scheduleArbEvent_keeps _)).trans (.note _ _)

/-- The requests that an upstream makes from inside a call. -/
theorem embed_run_keeps {ρ : Type} (r : Reaction c.numUpstreams υ ρ) (w : World (Outside υ μ)) :
    Keeps w ((embed r w.rest).run c (peers c M U) w).2 := by
  induction r generalizing w with
  | done result u => exact .setRest rfl rfl
  | request bank up pkt u next ih =>
    have hfirst : Keeps w { w with rest := { w.rest with upstream := u } } := .setRest rfl rfl
    exact (hfirst.trans (recvTimingReqUp_keeps pkt bank up _)).trans (ih _ _ _)

theorem keeps_passClosed (w : World (Outside υ μ)) : PassClosed c (peers c M U) (Keeps w) where
  sendTimingResp v bank up pkt h :=
    (h.trans (embed_run_keeps (U.recvTimingResp bank up pkt v.rest.upstream) v)).trans (.note _ _)
  sendRetryReq v bank up h :=
    (h.trans (.note v (.retryReq bank up))).trans
      (embed_run_keeps (U.recvReqRetry bank up v.rest.upstream) (v.note (.retryReq bank up)))
  schedule v h := h.trans (scheduleSendResponseEvent_keeps v)
  popResponse _ _ h := h.trans (.setArb rfl rfl)
  setRetryReq _ _ _ _ h := h.trans (.setArb rfl rfl)
  setRetryResp _ _ _ _ h := h.trans (.setArb rfl rfl)

theorem sendResponse_keeps (w : World (Outside υ μ)) :
    Keeps w (Arbiter.sendResponse c (peers c M U) w) :=
  (keeps_passClosed w).pass (.refl w)

theorem recvTimingResp_keeps {pkt : Packet}
    (h : recvTimingResp c (peers c M U) pkt bank w = .ok w') : Keeps w w' := by
  obtain ⟨resPkt, reads, up, ups, -, -, -, rfl⟩ := recvTimingResp_cases h
  have hdropped : Keeps w (w.setArb (w.arb.dropRecord bank pkt.addr)) := .setArb rfl rfl
  have hpushed := (hdropped.trans (.note _ (.response bank pkt))).trans
    (.setArb (a := (w.arb.dropRecord bank pkt.addr).pushResponse bank resPkt up) rfl rfl)
  exact hpushed.trans (scheduleSendResponseEvent_keeps _)

theorem handleReqRetry_keeps (bank : Bank) (w : World (Outside υ μ)) :
    Keeps w (handleReqRetry c (peers c M U) bank w) :=
  (Keeps.note w (.reqRetry bank)).trans (scheduleArbEvent_keeps _)

end Arbiter

section Dram

variable {M : MemorySystem μ}

theorem modify_keeps (f : DRAMsim3 → DRAMsim3) (w : World (Outside υ μ)) :
    Keeps w ((worldHost M bank).modify f w) :=
  .setRest rfl rfl

theorem accessAndRespond_keeps (pkt : Packet) (w : World (Outside υ μ)) :
    Keeps w (Dram.accessAndRespond (worldHost M bank) pkt w) := by
  unfold Dram.accessAndRespond
  dsimp only
  split
  · rename_i hguard
    rw [Bool.and_eq_true, Bool.not_eq_true', Bool.not_eq_true'] at hguard
    exact (modify_keeps _ w).trans (.schedule_other hguard.2 nofun)
  · exact modify_keeps _ w

theorem complete_keeps (w : World (Outside υ μ)) (t : Completion) (w' : World (Outside υ μ))
    (h : complete M w t = .ok w') : Keeps w w' := by
  unfold complete at h
  dsimp only at h
  split at h
  · obtain ⟨pkt, rest, -, -, rfl⟩ := writeComplete_ok h
    exact modify_keeps _ w
  · obtain ⟨pkt, rest, -, -, rfl⟩ := readComplete_ok h
    exact (modify_keeps _ w).trans (accessAndRespond_keeps _ _)

theorem wrapperTick_keeps (h : wrapperTick M w = .ok w') : Keeps w w' := by
  obtain ⟨v, hdone, rfl⟩ := wrapperTick_ok h
  have hv : Keeps w v := by
    refine Keeps.trans ?_
      (foldlM_relates Keeps .refl (fun _ _ _ => .trans) complete_keeps hdone)
    exact .setRest rfl rfl
  split
  · exact hv
  · rename_i hfree
    exact hv.trans (.schedule_other (by simpa using hfree) nofun)

variable {c : Config} {U : Upstreams c.numUpstreams υ}

theorem tick_keeps (w : World (Outside υ μ)) :
    Keeps w (tick (worldHost M bank) (handleReqRetry c (peers c M U) bank) w) := by
  unfold tick
  split
  · exact (modify_keeps _ w).trans (handleReqRetry_keeps bank _)
  · exact .refl w

theorem dram_sendResponse_keeps
    (h : Dram.sendResponse (worldHost M bank) (respond c M U bank) w = .ok w') : Keeps w w' := by
  obtain ⟨-, pkt, rest, success, v, -, hsend, rfl⟩ := sendResponse_ok h
  exact (recvTimingResp_keeps (respond_ok hsend).2).trans (modify_keeps _ v)

end Dram

/-! ## A round of arbitration -/

section Round

variable {c : Config} {M : MemorySystem μ} {U : Upstreams c.numUpstreams υ}

/-- The number of requests that the memory model refuses when heads are offered to it until one is
taken. -/
def refusals (M : MemorySystem μ) : List Head → μ → Nat
  | [], _ => 0
  | h :: hs, m =>
    let r := M.willAcceptTransaction h.pkt.addr h.pkt.isWrite m
    if r.1 then 0 else refusals M hs r.2 + 1

/-- The turn of a bank makes no refusal, or one while no `tickEvent` of its memory object is
pending. -/
def CalmTurn (c : Config) (M : MemorySystem μ) (r : Round (Outside υ μ)) (bank : Bank) : Prop :=
  let n := refusals M (offers c r.world.arb bank) r.world.rest.memory
  n = 0 ∨ n = 1 ∧ r.world.rest.queue.scheduled (.dram bank .tick) = false

instance (r : Round (Outside υ μ)) (bank : Bank) : Decidable (CalmTurn c M r bank) :=
  inferInstanceAs (Decidable (_ ∨ _))

theorem offered_taken (bank : Bank) {pkt : Packet}
    (h : (M.willAcceptTransaction pkt.addr pkt.isWrite w.rest.memory).1 = true) :
    (offered c (peers c M U) bank pkt w).1 = true ∧
      Keeps w (offered c (peers c M U) bank pkt w).2 := by
  simp only [offered, peers, recvTimingReq, host, h, if_true]
  exact ⟨trivial, .of_eq rfl rfl rfl rfl⟩

/-- A refused request leaves `tickEvent` pending, and fails if it already was. -/
theorem offered_refused (bank : Bank) {pkt : Packet} (hw : Linked w)
    (h : (M.willAcceptTransaction pkt.addr pkt.isWrite w.rest.memory).1 = false) :
    let r := offered c (peers c M U) bank pkt w
    r.1 = false ∧ Linked r.2 ∧ r.2.rest.queue.scheduled (.dram bank .tick) = true ∧
      r.2.rest.failed = (w.rest.failed || w.rest.queue.scheduled (.dram bank .tick)) ∧
      r.2.rest.memory = (M.willAcceptTransaction pkt.addr pkt.isWrite w.rest.memory).2 := by
  let o : Outside υ μ := { w.rest with
    memory := (M.willAcceptTransaction pkt.addr pkt.isWrite w.rest.memory).2 }
  obtain ⟨q, heq, hsound, hflags⟩ := Outside.schedule_spec (o := o) hw.sound (.dram bank .tick)
  simp only [offered, peers, recvTimingReq, host, h, Bool.false_eq_true, if_false, Host.modify]
  rw [show Outside.schedule (.dram bank .tick) o = _ from heq]
  refine ⟨trivial, ⟨hsound, ?_, ?_⟩, ?_, rfl, rfl⟩
  · show q.scheduled (.arb .arb) = w.arb.arbEvent
    rw [hflags, ← hw.arb]
    simp [o]
  · show q.scheduled (.arb .sendResponse) = w.arb.sendResponseEvent
    rw [hflags, ← hw.sendResponse]
    simp [o]
  · simp [hflags]

/-- The turn of a bank keeps the flags linked, and a call fails in it exactly when there is a
second refusal before a tick. -/
theorem offerAll_failed (hs : List Head) (hw : Linked w) :
    Linked (offerAll c (peers c M U) bank hs w).2 ∧
      ((offerAll c (peers c M U) bank hs w).2.rest.failed = false ↔ w.rest.failed = false ∧
        (refusals M hs w.rest.memory = 0 ∨ refusals M hs w.rest.memory = 1 ∧
          w.rest.queue.scheduled (.dram bank .tick) = false)) := by
  induction hs generalizing w with
  | nil => simp [offerAll, refusals, hw]
  | cons h hs ih =>
    cases hanswer : (M.willAcceptTransaction h.pkt.addr h.pkt.isWrite w.rest.memory).1 with
    | true =>
      obtain ⟨htaken, hkeeps⟩ := offered_taken (c := c) (U := U) bank hanswer
      simp only [offerAll, refusals, htaken, hanswer, if_true, true_or, and_true]
      obtain ⟨hlinked, hfailed⟩ := hkeeps hw
      refine ⟨⟨hlinked.sound, hlinked.arb, hlinked.sendResponse⟩, ?_⟩
      exact iff_of_eq (congrArg (· = false) hfailed)
    | false =>
      obtain ⟨hrefused, hlinked, htick, hfailed, hmemory⟩ :=
        offered_refused (c := c) (U := U) bank hw hanswer
      obtain ⟨hlinked', hiff⟩ := ih hlinked
      simp only [offerAll, refusals, hrefused, hanswer, Bool.false_eq_true, if_false]
      refine ⟨hlinked', ?_⟩
      rw [hiff, hfailed, hmemory, htick, Bool.or_eq_false_iff]
      simp only [Bool.true_eq_false, and_false, or_false, Nat.add_eq_zero_iff, one_ne_zero,
        false_or, Nat.add_eq_right]
      tauto

theorem arbitrateStep_failed (r : Round (Outside υ μ)) (bank : Bank) (hr : Linked r.world) :
    Linked (arbitrateStep c (peers c M U) r bank).world ∧
      ((arbitrateStep c (peers c M U) r bank).world.rest.failed = false ↔
        r.world.rest.failed = false ∧ CalmTurn c M r bank) := by
  rw [arbitrateStep_eq]
  exact offerAll_failed _ hr

theorem arbitrate_failed (hw : Linked w) :
    Linked (arbitrate c (peers c M U) w) ∧
      ((arbitrate c (peers c M U) w).rest.failed = false ↔ w.rest.failed = false ∧
        Along (arbitrateStep c (peers c M U)) (CalmTurn c M) banks ⟨false, false, w⟩) := by
  have hstep (r : Round (Outside υ μ)) (bank : Bank) (hr : Linked r.world) :=
    arbitrateStep_failed (c := c) (M := M) (U := U) r bank hr
  let r := rounds c (peers c M U) w
  have hlinked : Linked r.world :=
    foldl_invariant (fun r : Round (Outside υ μ) => Linked r.world)
      (fun r bank _ hr => (hstep r bank hr).1) hw
  have hfailed : r.world.rest.failed = false ↔ _ :=
    foldl_iff_along_of_invariant (fun r : Round (Outside υ μ) => r.world.rest.failed = false)
      (fun r => Linked r.world) (fun r bank hr => (hstep r bank hr).1)
      (fun r bank hr => (hstep r bank hr).2) hw
  have hkeeps : Keeps r.world (arbitrate c (peers c M U) w) := by
    unfold arbitrate
    dsimp only
    split
    · exact scheduleArbEvent_keeps _
    · exact .refl _
  obtain ⟨hlinked', hsame⟩ := hkeeps hlinked
  refine ⟨hlinked', ?_⟩
  rw [hsame]
  exact hfailed

end Round

/-! ## Steps and runs -/

section Runs

variable {c : Config} {M : MemorySystem μ} {U : Upstreams c.numUpstreams υ}

/-- The flag in the arbiter of an event that was taken from the queue is cleared. -/
def clearFlag : EventId → World (Outside υ μ) → World (Outside υ μ)
  | .arb .arb, w => w.clearArbEvent
  | .arb .sendResponse, w => w.clearSendResponseEvent
  | .dram .., w | .wrapperTick, w => w

@[simp] theorem clearFlag_rest (e : EventId) (w : World (Outside υ μ)) :
    (clearFlag e w).rest = w.rest := by
  unfold clearFlag
  split <;> rfl

theorem takeHead_linked (hw : Linked w) {e : EventId} {q : EventQueue EventId}
    (h : w.rest.queue.takeHead = .ok (e, q)) : Linked (clearFlag e (setQueue q w)) := by
  obtain ⟨hsound, -, hflags, -⟩ := hw.sound.takeHead h
  have hself : q.scheduled e = false := by
    rw [hflags, Function.update_self]
  have harb (he : .arb .arb ≠ e) : q.scheduled (.arb .arb) = w.arb.arbEvent := by
    rw [hflags, Function.update_of_ne he]
    exact hw.arb
  have hresp (he : .arb .sendResponse ≠ e) :
      q.scheduled (.arb .sendResponse) = w.arb.sendResponseEvent := by
    rw [hflags, Function.update_of_ne he]
    exact hw.sendResponse
  cases e with
  | arb e =>
    cases e with
    | arb => exact ⟨hsound, hself, hresp nofun⟩
    | sendResponse => exact ⟨hsound, harb nofun, hself⟩
  | dram bank e => exact ⟨hsound, harb nofun, hresp nofun⟩
  | wrapperTick => exact ⟨hsound, harb nofun, hresp nofun⟩

/-- What a step needs: in a round of arbitration every turn is calm. -/
def CalmStep (c : Config) (M : MemorySystem μ) (U : Upstreams c.numUpstreams υ)
    (w : World (Outside υ μ)) : Action c.numUpstreams υ → Prop
  | .serviceOne =>
    match w.rest.queue.takeHead with
    | .ok (.arb .arb, q) => Along (arbitrateStep c (peers c M U)) (CalmTurn c M) banks
        ⟨false, false, (setQueue q w).clearArbEvent⟩
    | _ => True
  | .request .. | .respRetry .. | .upstream _ | .advance _ => True

theorem calmStep_other {e : EventId} {q : EventQueue EventId} (he : e ≠ .arb .arb)
    (h : w.rest.queue.takeHead = .ok (e, q)) : CalmStep c M U w .serviceOne := by
  simp only [CalmStep, h]
  cases e with
  | arb e =>
    cases e with
    | arb => exact absurd rfl he
    | sendResponse => trivial
  | dram bank e => trivial
  | wrapperTick => trivial

/-- Processing an event other than `arbEvent`. -/
theorem process_keeps {e : EventId} (he : e ≠ .arb .arb)
    (h : process c M U w e = .ok w') : Keeps (clearFlag e w) w' := by
  cases e with
  | arb e =>
    cases e with
    | arb => exact absurd rfl he
    | sendResponse =>
      cases h
      exact sendResponse_keeps _
  | dram bank e =>
    cases e with
    | tick =>
      cases h
      exact tick_keeps w
    | sendResponse => exact dram_sendResponse_keeps h
  | wrapperTick => exact wrapperTick_keeps h

theorem serviceOne_failed (hw : Linked w) (hstep : step c M U w .serviceOne = some w') :
    Linked w' ∧ (w'.rest.failed = false ↔ CalmStep c M U w .serviceOne) := by
  have hrunning := step_running hstep
  obtain ⟨e, q, htake, hprocess⟩ := step_serviceOne hstep
  have hlinked := takeHead_linked hw htake
  by_cases he : e = .arb .arb
  · subst he
    cases hprocess
    obtain ⟨hlinked', hfailed⟩ := arbitrate_failed (c := c) (M := M) (U := U) hlinked
    refine ⟨hlinked', hfailed.trans ?_⟩
    simp only [CalmStep, htake]
    exact and_iff_right hrunning
  · obtain ⟨hlinked', hfailed⟩ := process_keeps he hprocess hlinked
    refine ⟨hlinked', iff_of_true ?_ (calmStep_other he htake)⟩
    rw [hfailed, clearFlag_rest]
    exact hrunning

theorem step_failed {action : Action c.numUpstreams υ} (hw : Linked w)
    (hstep : step c M U w action = some w') :
    Linked w' ∧ (w'.rest.failed = false ↔ CalmStep c M U w action) := by
  have hrunning := step_running hstep
  have hkeeps (h : Keeps w w') (hcalm : CalmStep c M U w action) :
      Linked w' ∧ (w'.rest.failed = false ↔ CalmStep c M U w action) := by
    obtain ⟨hlinked, hfailed⟩ := h hw
    exact ⟨hlinked, iff_of_true (hfailed.trans hrunning) hcalm⟩
  cases action with
  | serviceOne => exact serviceOne_failed hw hstep
  | request bank up pkt =>
    have hw' : w' = (recvTimingReqUp c (peers c M U) pkt bank up w).2 := by
      simpa [step, hrunning] using hstep.symm
    subst hw'
    exact hkeeps (recvTimingReqUp_keeps pkt bank up w) trivial
  | respRetry bank up =>
    have hw' : w' = handleRespRetry c (peers c M U) bank up w := by
      simpa [step, hrunning] using hstep.symm
    subst hw'
    have hclear : Keeps w (w.clearRetryResp bank up) := .of_eq rfl rfl rfl rfl
    exact hkeeps (hclear.trans (sendResponse_keeps _)) trivial
  | upstream u =>
    have hw' : w' = { w with rest := { w.rest with upstream := u } } := by
      simpa [step, hrunning] using hstep.symm
    subst hw'
    exact hkeeps (.of_eq rfl rfl rfl rfl) trivial
  | advance t =>
    obtain rfl := step_advance hstep
    exact hkeeps (fun h => ⟨⟨h.sound.setCurTick t, h.arb, h.sendResponse⟩, rfl⟩) trivial

theorem start_linked (u : υ) (m : μ) : Linked (start u m) ∧ (start u m).rest.failed = false := by
  let o : Outside υ μ :=
    { queue := .init fun _ => 0, drams := fun _ => .init, memory := m, upstream := u,
      failed := false }
  obtain ⟨q, heq, hsound, hflags⟩ := Outside.scheduleAt_free (o := o) (.init _)
    (e := .wrapperTick) rfl (Nat.le_refl 0)
  have hstart : (start u m).rest = { o with queue := q } := heq
  refine ⟨⟨?_, ?_, ?_⟩, ?_⟩
  · rw [hstart]
    exact hsound
  · rw [hstart]
    simp only [hflags]
    rfl
  · rw [hstart]
    simp only [hflags]
    rfl
  · rw [hstart]

/-- The runs in which every call of `schedule` finds its event not scheduled are exactly those in
which every turn of every round is calm. -/
theorem no_double_schedule_iff {u : υ} {m : μ} :
    Reach (Steps (step c M U)) (CalmStep c M U) (start u m) w ↔
      Reach (Steps (step c M U)) Free (start u m) w ∧ w.rest.failed = false :=
  Reach.iff_of_step_iff (fun v : World (Outside υ μ) => v.rest.failed = false) Linked
    (start_linked u m).2 (start_linked u m).1
    (fun _ _ _ hstep _ => step_running hstep)
    (fun _ _ _ hstep _ hlinked => (step_failed hlinked hstep).2)
    (fun _ _ _ hstep _ hlinked _ => (step_failed hlinked hstep).1)

/-- One read that the memory model refuses twice. The refusal at tick 1 schedules `tickEvent` and
then `arbEvent` for tick 2. The event scheduled last is serviced first, so the second round comes
before the tick and schedules `tickEvent` again. -/
theorem tickEvent_scheduled_twice :
    ¬ ∀ w, Reach (Steps (step (Config.small 1 0) (MemorySystem.constant false)
        (Upstreams.constant true))) Free (start () ()) w → w.rest.failed = false := by
  intro h
  obtain ⟨w, hw, hp⟩ := Reach.of_run
    (step (Config.small 1 0) (MemorySystem.constant false) (Upstreams.constant true)) Free
    (start () ()) [.request 0 0 ⟨0, 64, false⟩, .serviceOne, .serviceOne, .serviceOne, .serviceOne]
    (fun w => w.rest.failed) (by decide +kernel)
  rw [h w hw] at hp
  cases hp

end Runs

end NetSim.System
