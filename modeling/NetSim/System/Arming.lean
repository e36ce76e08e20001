import NetSim.System.Main
import NetSim.System.Schedule

/-!
# What the handlers of `main` do to the event queue

The copies of the flags that the arbiter and the buffers carry are the flags of the queue (`Wired`).
A handler keeps them so, and what it does to the queue is a sequence of calls
`schedule(event, curTick() + 1)` that return, or a failed assert (`Steady`). No loop over the queue
goes on for ever.
-/

namespace NetSim.System

open Common Library Event Arbiter Dram Buffer Relation

variable {n : Nat} {μ : Type} {p : Plant n μ} {w w' w'' : World (Plant n μ)} {bank : Bank}

/-! ## The queue -/

theorem ObjEvent.mem_all (e : ObjEvent n) : e ∈ ObjEvent.all n := by
  cases e with
  | component e => simp [ObjEvent.all, EventId.mem_all]
  | bufferTick up => simp [ObjEvent.all]
  | bufferSendData up => simp [ObjEvent.all]

/-- A call fails exactly when the event is pending, and otherwise leaves it pending. -/
theorem Plant.scheduleAt_cases (hs : Sound p.queue) (e : ObjEvent n) {t : Tick}
    (ht : p.queue.curTick ≤ t) :
    (p.queue.scheduled e = true ∧ p.scheduleAt e t = { p with failed := true }) ∨
    ∃ q, p.queue.schedule ((ObjEvent.all n).length + 1) e t = .ok q ∧ Sound q ∧
      p.scheduleAt e t = { p with queue := q } ∧
      q.scheduled = Function.update p.queue.scheduled e true := by
  cases he : p.queue.scheduled e with
  | true =>
    refine .inl ⟨rfl, ?_⟩
    simp [scheduleAt, EventQueue.schedule, he]
  | false =>
    obtain ⟨q, hrun, hq, hflags, -⟩ :=
      hs.schedule he ht ObjEvent.mem_all (Nat.lt_succ_self (ObjEvent.all n).length)
    refine .inr ⟨q, hrun, hq, ?_, hflags⟩
    simp only [scheduleAt, hrun]

/-- The copy of the flag of an event, if there is one. -/
def flagOf (w : World (Plant n μ)) : ObjEvent n → Option Bool
  | .component (.arb .arb) => some w.arb.arbEvent
  | .component (.arb .sendResponse) => some w.arb.sendResponseEvent
  | .component (.dram _ _) => none
  | .component .wrapperTick => none
  | .bufferTick up => some (w.rest.buffers up).tickEvent
  | .bufferSendData up => some (w.rest.buffers up).sendDataRetryrespEvent

theorem Plant.schedule_buffers (e : ObjEvent n) (p : Plant n μ) :
    (p.schedule e).buffers = p.buffers := by
  unfold Plant.schedule Plant.scheduleAt
  split <;> rfl

theorem flagOf_congr (harb : w'.arb.arbEvent = w.arb.arbEvent)
    (hresp : w'.arb.sendResponseEvent = w.arb.sendResponseEvent)
    (hbuffers : w'.rest.buffers = w.rest.buffers) : flagOf w' = flagOf w := by
  funext e
  rcases e with ((_ | _) | _ | _) | _ | _
  · exact congrArg some harb
  · exact congrArg some hresp
  · rfl
  · rfl
  · simp only [flagOf, hbuffers]
  · simp only [flagOf, hbuffers]

/-- The queue reads as an agenda, and the copies of the flags are its flags. -/
structure Wired (w : World (Plant n μ)) : Prop where
  sound : Sound w.rest.queue
  flags : ∀ e flag, flagOf w e = some flag → w.rest.queue.scheduled e = flag

/-- An event other than that of the wrapper is scheduled for the next tick. -/
def NextTick (q q' : EventQueue (ObjEvent n)) : Prop :=
  ∃ e, e ≠ .component .wrapperTick ∧
    q.schedule ((ObjEvent.all n).length + 1) e (q.curTick + 1) = .ok q'

/-- Any number of such calls. -/
def Arms : EventQueue (ObjEvent n) → EventQueue (ObjEvent n) → Prop := ReflTransGen NextTick

/-- `schedule(event, curTick() + 1)`; the copy of the flag, if there is one, is set. -/
theorem Wired.schedule {e : ObjEvent n} (h : Wired w)
    (hqueue : w'.rest.queue = (w.rest.schedule e).queue)
    (hfailed : w'.rest.failed = (w.rest.schedule e).failed)
    (hhung : w'.rest.hung = (w.rest.schedule e).hung)
    (hflags : ∀ x, flagOf w' x = (flagOf w x).map (· || decide (x = e))) :
    Wired w' ∧ w'.rest.hung = w.rest.hung ∧ (w'.rest.failed = false → w.rest.failed = false ∧
      w.rest.queue.schedule ((ObjEvent.all n).length + 1) e (w.rest.queue.curTick + 1) =
        .ok w'.rest.queue) := by
  have hold : ∀ x flag, flagOf w' x = some flag →
      flag = (w.rest.queue.scheduled x || decide (x = e)) := by
    intro x flag hx
    rw [hflags] at hx
    obtain ⟨f, hf, rfl⟩ := Option.map_eq_some_iff.mp hx
    rw [h.flags x f hf]
  rcases Plant.scheduleAt_cases h.sound e (Nat.le_succ w.rest.queue.curTick) with
    ⟨hpending, heq⟩ | ⟨q, hrun, hsound, heq, hset⟩
  · rw [show w.rest.schedule e = _ from heq] at hqueue hfailed hhung
    refine ⟨⟨hqueue ▸ h.sound, fun x flag hx => ?_⟩, hhung, fun hf => ?_⟩
    · rw [hold x flag hx, hqueue]
      by_cases hxe : x = e
      · simp [hxe, hpending]
      · simp [hxe]
    · rw [hfailed] at hf
      cases hf
  · rw [show w.rest.schedule e = _ from heq] at hqueue hfailed hhung
    refine ⟨⟨hqueue ▸ hsound, fun x flag hx => ?_⟩, hhung, fun hf => ⟨hfailed ▸ hf, ?_⟩⟩
    · rw [hold x flag hx, hqueue]
      change q.scheduled x = _
      rw [hset]
      by_cases hxe : x = e
      · simp [hxe]
      · simp [hxe]
    · rw [hqueue]
      exact hrun

/-- An event without a copy of its flag. -/
theorem flagOf_schedule {e : ObjEvent n} (hnone : flagOf w e = none) (x : ObjEvent n) :
    flagOf { w with rest := w.rest.schedule e } x = (flagOf w x).map (· || decide (x = e)) := by
  have hsame : flagOf { w with rest := w.rest.schedule e } = flagOf w :=
    flagOf_congr rfl rfl (Plant.schedule_buffers e w.rest)
  rw [hsame]
  by_cases hxe : x = e
  · rw [hxe, hnone]
    rfl
  · simp [hxe]

theorem Wired.schedule_self {e : ObjEvent n} (h : Wired w) (hnone : flagOf w e = none) :
    Wired { w with rest := w.rest.schedule e } ∧ (w.rest.schedule e).hung = w.rest.hung ∧
      ((w.rest.schedule e).failed = false → w.rest.failed = false ∧
        w.rest.queue.schedule ((ObjEvent.all n).length + 1) e (w.rest.queue.curTick + 1) =
          .ok (w.rest.schedule e).queue) :=
  h.schedule rfl rfl rfl (flagOf_schedule hnone)

/-- From `w` to `w'` the copies stay those of the flags, and the queue changes by calls for the next
tick, unless an assert has failed. -/
def Steady (w w' : World (Plant n μ)) : Prop :=
  Wired w → Wired w' ∧ w'.rest.hung = w.rest.hung ∧
    (w'.rest.failed = false → w.rest.failed = false ∧ Arms w.rest.queue w'.rest.queue)

namespace Steady

theorem refl (w : World (Plant n μ)) : Steady w w := fun h => ⟨h, rfl, fun hf => ⟨hf, .refl⟩⟩

theorem trans (h : Steady w w') (h' : Steady w' w'') : Steady w w'' := by
  intro hw
  obtain ⟨hw', hhung, hrun⟩ := h hw
  obtain ⟨hw'', hhung', hrun'⟩ := h' hw'
  refine ⟨hw'', hhung'.trans hhung, fun hfailed => ?_⟩
  obtain ⟨hfailed', harms'⟩ := hrun' hfailed
  obtain ⟨hfailed, harms⟩ := hrun hfailed'
  exact ⟨hfailed, harms.trans harms'⟩

/-- Neither the queue nor a copy of a flag changes. -/
theorem of_flags (hqueue : w'.rest.queue = w.rest.queue)
    (hfailed : w'.rest.failed = w.rest.failed) (hhung : w'.rest.hung = w.rest.hung)
    (hflags : flagOf w' = flagOf w) : Steady w w' := by
  intro h
  refine ⟨⟨?_, ?_⟩, hhung, fun hf => ⟨hfailed ▸ hf, ?_⟩⟩
  · rw [hqueue]
    exact h.sound
  · rw [hqueue, hflags]
    exact h.flags
  · rw [hqueue]
    exact .refl

/-- Changes of other fields. -/
theorem of_eq (hqueue : w'.rest.queue = w.rest.queue) (hfailed : w'.rest.failed = w.rest.failed)
    (hhung : w'.rest.hung = w.rest.hung) (hbuffers : w'.rest.buffers = w.rest.buffers)
    (harb : w'.arb.arbEvent = w.arb.arbEvent)
    (hresp : w'.arb.sendResponseEvent = w.arb.sendResponseEvent) : Steady w w' :=
  of_flags hqueue hfailed hhung (flagOf_congr harb hresp hbuffers)

/-- An entry of the log. -/
theorem note (w : World (Plant n μ)) (e : PortEvent) : Steady w (w.note e) :=
  of_eq rfl rfl rfl rfl rfl rfl

/-- The arbiter changes, but for the copies of its flags. -/
theorem setArb {a : DramArb} (harb : a.arbEvent = w.arb.arbEvent)
    (hresp : a.sendResponseEvent = w.arb.sendResponseEvent) : Steady w (w.setArb a) :=
  of_eq rfl rfl rfl rfl harb hresp

/-- The memory objects and the memory model change. -/
theorem setMemory (w : World (Plant n μ)) (drams : Bank → DRAMsim3) (m : μ) :
    Steady w { w with rest := { w.rest with drams := drams, memory := m } } :=
  of_eq rfl rfl rfl rfl rfl rfl

theorem schedule {e : ObjEvent n} (hne : e ≠ .component .wrapperTick)
    (hqueue : w'.rest.queue = (w.rest.schedule e).queue)
    (hfailed : w'.rest.failed = (w.rest.schedule e).failed)
    (hhung : w'.rest.hung = (w.rest.schedule e).hung)
    (hflags : ∀ x, flagOf w' x = (flagOf w x).map (· || decide (x = e))) : Steady w w' := by
  intro h
  obtain ⟨hwired, hsame, hrun⟩ := h.schedule hqueue hfailed hhung hflags
  refine ⟨hwired, hsame, fun hf => ⟨(hrun hf).1, .single ⟨e, hne, (hrun hf).2⟩⟩⟩

theorem schedule_other {e : ObjEvent n} (hne : e ≠ .component .wrapperTick)
    (hnone : flagOf w e = none) : Steady w { w with rest := w.rest.schedule e } :=
  schedule hne rfl rfl rfl (flagOf_schedule hnone)

end Steady

/-! ## Buffers -/

/-- The event flags of a buffer are the same before and after. -/
def SameFlags (b b' : UpBuffer) : Prop :=
  b'.tickEvent = b.tickEvent ∧ b'.sendDataRetryrespEvent = b.sendDataRetryrespEvent

/-- A reaction of a buffer that schedules none of its events. -/
def FlagsKept {ρ : Type} : UpBuffer → Reaction n UpBuffer ρ → Prop
  | b, .done _ b' => SameFlags b b'
  | b, .request _ _ _ b' next => SameFlags b b' ∧ ∀ accepted b, FlagsKept b (next accepted b)

theorem initFrom_flagsKept (up : Fin n) (ports : List PortId) (b : UpBuffer) :
    FlagsKept b (UpBuffer.initFrom up ports b) := by
  induction ports generalizing b with
  | nil => exact ⟨rfl, rfl⟩
  | cons port ports ih => exact ⟨⟨rfl, rfl⟩, fun _ b => ih b⟩

/-- What the loop does to the buffer before it goes on leaves the flags alone. -/
theorem FlagsKept.of_sameFlags {ρ : Type} {b b' : UpBuffer} {r : Reaction n UpBuffer ρ}
    (h : FlagsKept b' r) (hsame : SameFlags b b') : FlagsKept b r := by
  cases r with
  | done result b'' => exact ⟨h.1.trans hsame.1, h.2.trans hsame.2⟩
  | request bank up pkt b'' next => exact ⟨⟨h.1.1.trans hsame.1, h.1.2.trans hsame.2⟩, h.2⟩

theorem sendpktFrom_flagsKept (up : Fin n) (ports : List PortId) (b : UpBuffer) :
    FlagsKept b (UpBuffer.sendpktFrom up ports b) := by
  induction ports generalizing b with
  | nil => exact ⟨rfl, rfl⟩
  | cons port ports ih =>
    unfold UpBuffer.sendpktFrom
    split
    · exact (ih _).of_sameFlags ⟨rfl, rfl⟩
    · refine ⟨⟨rfl, rfl⟩, fun accepted b => (ih _).of_sameFlags ?_⟩
      split
      · exact ⟨rfl, rfl⟩
      · exact ⟨rfl, rfl⟩

theorem sendRetryReq_flagsKept (up : Fin n) (port : PortId) (b : UpBuffer) :
    FlagsKept b (UpBuffer.sendRetryReq up port b) :=
  ⟨⟨rfl, rfl⟩, fun _ _ => ⟨rfl, rfl⟩⟩

/-- The flags after a change of the buffer `up`. -/
theorem flagOf_update {up : Fin n} {b : UpBuffer} {o : Plant n μ}
    (hbuffers : o.buffers = Function.update w.rest.buffers up b) (x : ObjEvent n) :
    flagOf { w with rest := o } x =
      if x = .bufferTick up then some b.tickEvent
      else if x = .bufferSendData up then some b.sendDataRetryrespEvent else flagOf w x := by
  rcases x with ((_ | _) | _ | _) | up' | up'
  · rfl
  · rfl
  · rfl
  · rfl
  · by_cases hup : up' = up
    · simp [flagOf, hbuffers, hup]
    · simp [flagOf, hbuffers, hup]
  · by_cases hup : up' = up
    · simp [flagOf, hbuffers, hup]
    · simp [flagOf, hbuffers, hup]

def Plant.putBuffer (up : Fin n) (b : UpBuffer) (p : Plant n μ) : Plant n μ :=
  { p with buffers := Function.update p.buffers up b }

theorem Plant.schedule_withBuffers (e : ObjEvent n) (u : Buffers n) (p : Plant n μ) :
    Plant.schedule e { p with buffers := u } = { p.schedule e with buffers := u } := by
  unfold Plant.schedule Plant.scheduleAt
  dsimp only
  split <;> rfl

/-- One event of a buffer is scheduled with its flag. -/
theorem Steady.scheduleBuffer {up : Fin n} {b : UpBuffer} {e : ObjEvent n}
    (hne : e ≠ .component .wrapperTick)
    (htick : b.tickEvent = ((w.rest.buffers up).tickEvent || decide (.bufferTick up = e)))
    (hsend : b.sendDataRetryrespEvent =
      ((w.rest.buffers up).sendDataRetryrespEvent || decide (.bufferSendData up = e)))
    (hother : ∀ x, x ≠ .bufferTick up → x ≠ .bufferSendData up → x ≠ e) :
    Steady w { w with rest := Plant.schedule e (w.rest.putBuffer up b) } := by
  rw [Plant.putBuffer, Plant.schedule_withBuffers]
  refine .schedule hne rfl rfl rfl fun x => ?_
  rw [flagOf_update rfl]
  split
  · rename_i hx
    rw [hx, htick]
    rfl
  · split
    · rename_i hx
      rw [hx, hsend]
      rfl
    · rename_i hx hx'
      simp [hother x hx hx']

/-- A buffer changes and schedules nothing. -/
theorem Steady.updateBuffer {up : Fin n} {b : UpBuffer} (h : SameFlags (w.rest.buffers up) b) :
    Steady w { w with rest := w.rest.putBuffer up b } := by
  refine .of_flags rfl rfl rfl ?_
  funext x
  rw [flagOf_update rfl]
  split
  · rename_i hx
    rw [hx, h.1]
    rfl
  · split
    · rename_i hx
      rw [hx, h.2]
      rfl
    · rfl

theorem setBuffer_eq_putBuffer {up : Fin n} {b : UpBuffer} (h : SameFlags (p.buffers up) b) :
    p.setBuffer up b = p.putBuffer up b := by
  unfold Plant.setBuffer
  dsimp only
  rw [h.1, h.2, Bool.and_not_self, Bool.and_not_self]
  rfl

theorem setBuffer_sameFlags {up : Fin n} {b : UpBuffer} (h : SameFlags (w.rest.buffers up) b) :
    Steady w { w with rest := w.rest.setBuffer up b } := by
  rw [setBuffer_eq_putBuffer h]
  exact .updateBuffer h

/-- `tickEvent` may be scheduled. -/
theorem setBuffer_tick {up : Fin n} {b : UpBuffer}
    (htick : (w.rest.buffers up).tickEvent = true → b.tickEvent = true)
    (hsend : b.sendDataRetryrespEvent = (w.rest.buffers up).sendDataRetryrespEvent) :
    Steady w { w with rest := w.rest.setBuffer up b } := by
  cases hflip : b.tickEvent && !(w.rest.buffers up).tickEvent with
  | false =>
    refine setBuffer_sameFlags ⟨?_, hsend⟩
    rw [Bool.eq_iff_iff]
    exact ⟨fun hb => by simpa [hb] using hflip, htick⟩
  | true =>
    rw [Bool.and_eq_true, Bool.not_eq_true'] at hflip
    unfold Plant.setBuffer
    dsimp only
    rw [hsend, Bool.and_not_self, hflip.1, hflip.2]
    exact Steady.scheduleBuffer (e := .bufferTick up) nofun (by simp [hflip.1]) (by simp [hsend])
      fun x hx _ => hx

/-- `send_data_retryrespEvent` may be scheduled. -/
theorem setBuffer_sendData {up : Fin n} {b : UpBuffer}
    (htick : b.tickEvent = (w.rest.buffers up).tickEvent)
    (hsend : (w.rest.buffers up).sendDataRetryrespEvent = true →
      b.sendDataRetryrespEvent = true) :
    Steady w { w with rest := w.rest.setBuffer up b } := by
  cases hflip : b.sendDataRetryrespEvent && !(w.rest.buffers up).sendDataRetryrespEvent with
  | false =>
    refine setBuffer_sameFlags ⟨htick, ?_⟩
    rw [Bool.eq_iff_iff]
    exact ⟨fun hb => by simpa [hb] using hflip, hsend⟩
  | true =>
    rw [Bool.and_eq_true, Bool.not_eq_true'] at hflip
    unfold Plant.setBuffer
    dsimp only
    rw [htick, Bool.and_not_self, hflip.1, hflip.2]
    exact Steady.scheduleBuffer (e := .bufferSendData up) nofun (by simp [htick])
      (by simp [hflip.1]) fun x _ hx => hx

/-! ## The arbiter -/

section Handlers

variable {c : Config} {M : MemorySystem μ} {v v' : World (Plant c.numUpstreams μ)}

theorem scheduleArbEvent_steady (v : World (Plant c.numUpstreams μ)) :
    Steady v (scheduleArbEvent c (mainPeers c M) v) := by
  unfold scheduleArbEvent
  split
  · exact .refl v
  · refine .schedule (e := .component (.arb .arb)) nofun rfl rfl rfl fun x => ?_
    have hbuffers := Plant.schedule_buffers (.component (.arb .arb)) v.rest
    rcases x with ((_ | _) | _ | _) | up | up <;>
      simp [flagOf, mainPeers, hbuffers]

theorem scheduleSendResponseEvent_steady (v : World (Plant c.numUpstreams μ)) :
    Steady v (scheduleSendResponseEvent c (mainPeers c M) v) := by
  unfold scheduleSendResponseEvent
  split
  · exact .refl v
  · refine .schedule (e := .component (.arb .sendResponse)) nofun rfl rfl rfl fun x => ?_
    have hbuffers := Plant.schedule_buffers (.component (.arb .sendResponse)) v.rest
    rcases x with ((_ | _) | _ | _) | up | up <;>
      simp [flagOf, mainPeers, hbuffers]

theorem recvTimingReqUp_steady (pkt : Packet) (bank : Bank) (up : Nat)
    (v : World (Plant c.numUpstreams μ)) :
    Steady v (recvTimingReqUp c (mainPeers c M) pkt bank up v).2 := by
  unfold recvTimingReqUp
  cases haccept : acceptRequest c v.arb pkt bank up with
  | none =>
    have hset : Steady v (v.setArb (v.arb.setRetryReq bank up true)) := .setArb rfl rfl
    exact hset.trans (.note _ _)
  | some a =>
    obtain ⟨harb, hresp⟩ := acceptRequest_flags haccept
    have hset : Steady v (v.setArb a) := .setArb harb hresp
    exact (hset.trans (scheduleArbEvent_steady _)).trans (.note _ _)

/-- The requests of a buffer from inside a call, or from one of its events. -/
theorem react_run_steady {ρ : Type} (up : Fin c.numUpstreams)
    (r : Reaction c.numUpstreams UpBuffer ρ) (v : World (Plant c.numUpstreams μ))
    (hr : FlagsKept (v.rest.buffers up) r) :
    Steady v ((v.rest.react up r).run c (mainPeers c M) v).2 := by
  induction r generalizing v with
  | done result b => exact setBuffer_sameFlags hr
  | request bank target pkt b next ih =>
    have hfirst : Steady v { v with rest := v.rest.setBuffer up b } := setBuffer_sameFlags hr.1
    exact (hfirst.trans (recvTimingReqUp_steady pkt bank target _)).trans
      (ih _ _ _ (hr.2 _ _))

theorem recvTimingResp_flags (port : PortId) (pkt : Packet) (b : UpBuffer) :
    (b.tickEvent = true → (b.recvTimingResp port pkt).2.tickEvent = true) ∧
      (b.recvTimingResp port pkt).2.sendDataRetryrespEvent = b.sendDataRetryrespEvent := by
  unfold UpBuffer.recvTimingResp
  split
  · exact ⟨id, rfl⟩
  · dsimp only
    split
    · exact ⟨id, rfl⟩
    · exact ⟨fun _ => rfl, rfl⟩

/-- A response to a buffer. -/
theorem sendTimingResp_steady (bank : Bank) (up : Nat) (pkt : Packet)
    (v : World (Plant c.numUpstreams μ)) :
    Steady v (sendTimingResp c (mainPeers c M) bank up pkt v).2 := by
  have hrun : Steady v
      (((mainPeers c M).sendTimingResp bank up pkt v.rest).run c (mainPeers c M) v).2 := by
    by_cases hup : up < c.numUpstreams
    · obtain ⟨htick, hsend⟩ := recvTimingResp_flags bank pkt (v.rest.buffers ⟨up, hup⟩)
      rw [show (mainPeers c M).sendTimingResp bank up pkt v.rest = .done _ _ from dif_pos hup]
      exact setBuffer_tick htick hsend
    · rw [show (mainPeers c M).sendTimingResp bank up pkt v.rest = .done _ _ from dif_neg hup]
      exact .refl v
  exact hrun.trans (.note _ _)

/-- A retry to a buffer, which makes a request from inside it. -/
theorem main_sendRetryReq_steady (bank : Bank) (up : Nat) (v : World (Plant c.numUpstreams μ)) :
    Steady v (sendRetryReq c (mainPeers c M) bank up v) := by
  refine (Steady.note v (.retryReq bank up)).trans ?_
  unfold sendRetryReq
  by_cases hup : up < c.numUpstreams
  · rw [show (mainPeers c M).recvReqRetry bank up v.rest = v.rest.react ⟨up, hup⟩ _
      from dif_pos hup]
    exact react_run_steady _ _ (v.note (.retryReq bank up)) (sendRetryReq_flagsKept _ _ _)
  · rw [show (mainPeers c M).recvReqRetry bank up v.rest = .done _ _ from dif_neg hup]
    exact .refl _

theorem steady_passClosed (v : World (Plant c.numUpstreams μ)) :
    PassClosed c (mainPeers c M) (Steady v) where
  sendTimingResp u bank up pkt h := h.trans (sendTimingResp_steady bank up pkt u)
  sendRetryReq u bank up h := h.trans (main_sendRetryReq_steady bank up u)
  schedule u h := h.trans (scheduleSendResponseEvent_steady u)
  popResponse _ _ h := h.trans (.setArb rfl rfl)
  setRetryReq _ _ _ _ h := h.trans (.setArb rfl rfl)
  setRetryResp _ _ _ _ h := h.trans (.setArb rfl rfl)

theorem sendResponse_steady (v : World (Plant c.numUpstreams μ)) :
    Steady v (Arbiter.sendResponse c (mainPeers c M) v) :=
  (steady_passClosed v).pass (.refl v)

theorem recvTimingResp_steady {pkt : Packet}
    (h : recvTimingResp c (mainPeers c M) pkt bank v = .ok v') : Steady v v' := by
  obtain ⟨resPkt, reads, up, ups, -, -, -, rfl⟩ := recvTimingResp_cases h
  have hdropped : Steady v (v.setArb (v.arb.dropRecord bank pkt.addr)) := .setArb rfl rfl
  have hpushed := (hdropped.trans (.note _ (.response bank pkt))).trans
    (.setArb (a := (v.arb.dropRecord bank pkt.addr).pushResponse bank resPkt up) rfl rfl)
  exact hpushed.trans (scheduleSendResponseEvent_steady _)

theorem handleReqRetry_steady (bank : Bank) (v : World (Plant c.numUpstreams μ)) :
    Steady v (handleReqRetry c (mainPeers c M) bank v) :=
  (Steady.note v (.reqRetry bank)).trans (scheduleArbEvent_steady _)

/-! ## Memory objects -/

theorem mainHost_modify_steady (f : DRAMsim3 → DRAMsim3) (w : World (Plant n μ)) :
    Steady w ((mainHost M bank).modify f w) :=
  .setMemory w _ _

theorem main_accessAndRespond_steady (pkt : Packet) (w : World (Plant n μ)) :
    Steady w (Dram.accessAndRespond (mainHost M bank) pkt w) := by
  unfold Dram.accessAndRespond
  dsimp only
  split
  · exact (mainHost_modify_steady _ w).trans (.schedule_other nofun rfl)
  · exact mainHost_modify_steady _ w

theorem mainComplete_steady (w : World (Plant n μ)) (t : Completion) (w' : World (Plant n μ))
    (h : mainComplete M w t = .ok w') : Steady w w' := by
  unfold mainComplete at h
  dsimp only at h
  split at h
  · obtain ⟨pkt, rest, -, -, rfl⟩ := writeComplete_ok h
    exact mainHost_modify_steady _ w
  · obtain ⟨pkt, rest, -, -, rfl⟩ := readComplete_ok h
    exact (mainHost_modify_steady _ w).trans (main_accessAndRespond_steady _ _)

/-- A request that the memory object refuses schedules its `tickEvent`. -/
theorem recvTimingReq_steady (pkt : Packet) (v : World (Plant c.numUpstreams μ)) :
    Steady v { v with rest := ((mainPeers c M).sendTimingReq bank pkt v.rest).2 } := by
  simp only [mainPeers, recvTimingReq]
  split
  · exact .setMemory v _ _
  · have hasked : Steady v { v with rest := ((plantHost M bank).canAccept pkt.addr pkt.isWrite
        v.rest).2 } := .setMemory v _ _
    exact (hasked.trans (.schedule_other (e := .component (.dram bank .tick)) (by simp) rfl)).trans
      (.setMemory _ _ _)

theorem arbitrateRequests_steady (kind : Kind) (bank : Bank) (ks : List Nat)
    (v : World (Plant c.numUpstreams μ)) :
    Steady v (arbitrateRequests c (mainPeers c M) kind bank ks v).2 := by
  induction ks generalizing v with
  | nil => exact .refl v
  | cons k ks ih =>
    simp only [arbitrateRequests]
    split
    · exact ih v
    · rename_i pkt rest hhead
      let r := (mainPeers c M).sendTimingReq bank pkt v.rest
      have hnoted : Steady v { v.note (.sendReq bank pkt r.1) with rest := r.2 } :=
        (recvTimingReq_steady pkt v).trans (.note _ _)
      split
      · exact hnoted.trans (.setArb rfl rfl)
      · exact hnoted.trans (ih _)

theorem arbitrateBank_steady (bank : Bank) (v : World (Plant c.numUpstreams μ)) :
    Steady v (arbitrateBank c (mainPeers c M) bank v).2 := by
  have hread : Steady v (arbitrateReadRequests c (mainPeers c M) bank v).2 :=
    arbitrateRequests_steady .read bank _ v
  simp only [arbitrateBank]
  split
  · exact hread
  · exact hread.trans (arbitrateRequests_steady .write bank _ _)

theorem arbitrate_steady (v : World (Plant c.numUpstreams μ)) :
    Steady v (arbitrate c (mainPeers c M) v) := by
  have hrounds : Steady v (rounds c (mainPeers c M) v).world :=
    foldl_invariant (fun r : Round (Plant c.numUpstreams μ) => Steady v r.world)
      (fun r bank _ h => h.trans (arbitrateBank_steady bank r.world)) (.refl v)
  change Steady v (if _ then scheduleArbEvent c (mainPeers c M) (rounds c (mainPeers c M) v).world
    else (rounds c (mainPeers c M) v).world)
  split
  · exact hrounds.trans (scheduleArbEvent_steady _)
  · exact hrounds

/-! ## Events -/

theorem main_tick_steady (v : World (Plant c.numUpstreams μ)) :
    Steady v (tick (mainHost M bank) (handleReqRetry c (mainPeers c M) bank) v) := by
  unfold tick
  split
  · exact (mainHost_modify_steady _ v).trans (handleReqRetry_steady bank _)
  · exact .refl v

theorem mainRespond_ok {pkt : Packet} {success : Bool}
    (h : mainRespond c M bank pkt v = .ok (success, v')) :
    recvTimingResp c (mainPeers c M) pkt bank v = .ok v' := by
  unfold mainRespond at h
  split at h
  · rename_i u hrecv
    cases h
    exact hrecv
  · cases h

theorem main_sendResponse_steady
    (h : Dram.sendResponse (mainHost M bank) (mainRespond c M bank) v = .ok v') :
    Steady v v' := by
  obtain ⟨-, pkt, rest, success, u, -, hsend, rfl⟩ := sendResponse_ok h
  exact (recvTimingResp_steady (mainRespond_ok hsend)).trans (mainHost_modify_steady _ u)

theorem sendData2cal_flags (b : UpBuffer) :
    b.sendData2cal.tickEvent = b.tickEvent ∧
      (b.sendDataRetryrespEvent = true → b.sendData2cal.sendDataRetryrespEvent = true) := by
  have hpop : SameFlags b (banks.foldl UpBuffer.popData b) := by
    refine foldl_invariant (SameFlags b) (fun b' port _ h => ?_) ⟨rfl, rfl⟩
    unfold UpBuffer.popData
    split
    · exact h
    · exact h
  unfold UpBuffer.sendData2cal
  dsimp only
  split
  · exact ⟨hpop.1, fun _ => rfl⟩
  · exact ⟨hpop.1, fun h => hpop.2.trans h⟩

/-- `ClockTick` with its callbacks. -/
theorem mainWrapperTick_ok (h : mainWrapperTick M w = .ok w') :
    ∃ v, Steady w v ∧
      w' = if v.rest.queue.scheduled (.component .wrapperTick) then v
        else { v with rest := v.rest.schedule (.component .wrapperTick) } := by
  unfold mainWrapperTick at h
  dsimp only at h
  split at h
  · cases h
  · rename_i v hdone
    have hmemory : Steady w { w with rest := { w.rest with
        memory := (M.clockTick w.rest.memory).2 } } := .setMemory w _ _
    refine ⟨v, hmemory.trans (foldlM_relates Steady .refl (fun _ _ _ => .trans)
      mainComplete_steady hdone), ?_⟩
    split at h
    · rename_i hpending
      cases h
      rw [if_pos hpending]
    · rename_i hfree
      cases h
      rw [if_neg hfree]

/-- Every event but that of the wrapper. -/
theorem mainProcess_steady {e : ObjEvent c.numUpstreams} (hne : e ≠ .component .wrapperTick)
    (h : mainProcess c M v e = .ok v') : Steady v v' := by
  rcases e with ((_ | _) | ⟨bank, _ | _⟩ | _) | up | up
  · cases h
    exact arbitrate_steady v
  · cases h
    exact sendResponse_steady v
  · cases h
    exact main_tick_steady v
  · exact main_sendResponse_steady h
  · exact absurd rfl hne
  · cases h
    exact react_run_steady up _ v (sendpktFrom_flagsKept up banks _)
  · cases h
    obtain ⟨htick, hsend⟩ := sendData2cal_flags (v.rest.buffers up)
    exact setBuffer_sendData htick hsend

end Handlers

end NetSim.System
