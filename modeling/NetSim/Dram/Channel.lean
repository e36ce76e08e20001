import NetSim.Dram.Handlers
import NetSim.Event.Agenda
import NetSim.Library.Along
import NetSim.Library.Reach

/-!
# One memory object between a peer and a memory model

A `DRAMsim3` on its event queue. The memory model and the peer at the port are left open: each
request of a run comes with the answer that `can_accept` gives to it, each response with the answer
of the peer, and from inside `sendTimingResp` and `recvReqRetry` the peer may make any finite number
of further requests. The events of the other components stand in the same queue, so the clock may
advance to a tick before that of the head. A failed assert of `schedule` is remembered in `failed`,
and no step is taken from a state with that flag.
-/

namespace NetSim.Dram

open Common Event Library

/-- What happens at the port and towards the wrapper, with the answers and the clock. -/
inductive DramEntry
  /-- `recvTimingReq(pkt)` returned `accepted`. -/
  | request (pkt : Packet) (accepted : Bool) (tick : Tick)
  /-- `port.sendRetryReq()` was called. -/
  | retryReq (tick : Tick)
  /-- `readComplete(addr)` or `writeComplete(addr)` returned. -/
  | complete (addr : Addr) (isWrite : Bool)
  /-- `port.sendTimingResp(pkt)` returned `taken`. -/
  | sendResp (pkt : Packet) (taken : Bool)
  /-- `recvRespRetry()` was called. -/
  | respRetry
deriving DecidableEq, Repr

/-- The object, its event queue and its history, latest entry first. -/
structure Channel where
  dram : DRAMsim3
  queue : EventQueue DramEvent
  /-- What `can_accept` answers at the moment. -/
  accepts : Bool
  log : List DramEntry
  failed : Bool

namespace Channel

def init : Channel where
  dram := .init
  queue := .init fun _ => 0
  accepts := true
  log := []
  failed := false

def note (x : DramEntry) (s : Channel) : Channel := { s with log := x :: s.log }

/-- `schedule(event, curTick() + 1)`; three is more than the number of event objects. -/
def schedule (e : DramEvent) (s : Channel) : Channel :=
  match s.queue.schedule 3 e (s.queue.curTick + 1) with
  | .ok q => { s with queue := q }
  | .error _ => { s with failed := true }

end Channel

/-- The object seen from its state. -/
@[simps]
def host : Host Channel where
  dram s := s.dram
  setDram d s := { s with dram := d }
  canAccept _ _ s := (s.accepts, s)
  sendRequest _ _ s := s
  scheduled e s := s.queue.scheduled e
  schedule e s := s.schedule e

namespace Channel

/-- The peer makes a request, to which `can_accept` answers `r.2`. -/
def request (s : Channel) (r : Packet × Bool) : Channel :=
  let result := recvTimingReq host r.1 { s with accepts := r.2 }
  result.2.note (.request r.1 result.1 s.queue.curTick)

def requests (rs : List (Packet × Bool)) (s : Channel) : Channel := rs.foldl request s

/-- `port.sendTimingResp`: the peer makes the requests `rs` and answers `taken`. -/
def sendTimingResp (rs : List (Packet × Bool)) (taken : Bool) (pkt : Packet) (s : Channel) :
    Except Abort (Bool × Channel) :=
  .ok (taken, (s.requests rs).note (.sendResp pkt taken))

/-- `port.sendRetryReq`: the peer makes the requests `rs`. -/
def sendRetryReq (rs : List (Packet × Bool)) (s : Channel) : Channel :=
  (s.note (.retryReq s.queue.curTick)).requests rs

/-- The callback of the wrapper for one completed transaction. -/
def complete (addr : Addr) (isWrite : Bool) (s : Channel) : Except Abort Channel :=
  (if isWrite then writeComplete host addr s else readComplete host addr s).map
    (note (.complete addr isWrite))

/-- `Event::process` of an event that was taken from the queue. -/
def process (rs : List (Packet × Bool)) (taken : Bool) (s : Channel) :
    DramEvent → Except Abort Channel
  | .tick => .ok (tick host (sendRetryReq rs) s)
  | .sendResponse => sendResponse host (sendTimingResp rs taken) s

def respRetry (rs : List (Packet × Bool)) (taken : Bool) (s : Channel) : Except Abort Channel :=
  recvRespRetry host (sendTimingResp rs taken) (s.note .respRetry)

end Channel

/-- What the environment does: the peer makes a request or retries a response, the memory model
reports a transaction, the queue services its head, or the clock advances. -/
inductive DramAction
  | request (pkt : Packet) (accepts : Bool)
  | complete (addr : Addr) (isWrite : Bool)
  | serviceOne (rs : List (Packet × Bool)) (taken : Bool)
  | respRetry (rs : List (Packet × Bool)) (taken : Bool)
  | advance (t : Tick)

namespace Channel

/-- One step; a failed assert ends the run. -/
def step (s : Channel) (action : DramAction) : Option Channel :=
  if s.failed then none
  else match action with
    | .request pkt accepts => some (s.request (pkt, accepts))
    | .complete addr isWrite => (s.complete addr isWrite).toOption
    | .serviceOne rs taken =>
      match s.queue.takeHead with
      | .error _ => none
      | .ok (e, q) => (process rs taken { s with queue := q } e).toOption
    | .respRetry rs taken => (s.respRetry rs taken).toOption
    | .advance t =>
      if s.queue.curTick ≤ t ∧ ∀ e ∈ s.queue.head, t ≤ s.queue.when e then
        some { s with queue := { s.queue with curTick := t } }
      else none

/-! ## What a step does -/

variable {s s' : Channel}

theorem request_accepted (s : Channel) (pkt : Packet) :
    s.request (pkt, true) = { s with
      accepts := true
      dram := s.dram.record pkt
      log := .request pkt true s.queue.curTick :: s.log } := rfl

theorem schedule_accepts (e : DramEvent) (s : Channel) (b : Bool) :
    ({ s with accepts := b }).schedule e = { s.schedule e with accepts := b } := by
  unfold schedule
  dsimp only
  split <;> rfl

theorem schedule_dram (e : DramEvent) (s : Channel) :
    (s.schedule e).dram = s.dram ∧ (s.schedule e).log = s.log := by
  unfold schedule
  split <;> exact ⟨rfl, rfl⟩

/-- What a request does to the object and to the history. -/
theorem request_dram (s : Channel) (pkt : Packet) (accepts : Bool) :
    (s.request (pkt, accepts)).dram =
        (if accepts then s.dram.record pkt else s.dram.setRetryReq true) ∧
      (s.request (pkt, accepts)).log = .request pkt accepts s.queue.curTick :: s.log := by
  cases accepts with
  | true => exact ⟨rfl, rfl⟩
  | false =>
    obtain ⟨hdram, hlog⟩ := schedule_dram .tick { s with accepts := false }
    refine ⟨?_, ?_⟩
    · simp [request, recvTimingReq, Host.modify, note, hdram]
    · simp [request, recvTimingReq, Host.modify, note, hlog]

theorem requests_responseQueue (rs : List (Packet × Bool)) (s : Channel) :
    (s.requests rs).dram.responseQueue = s.dram.responseQueue := by
  induction rs generalizing s with
  | nil => rfl
  | cons r rs ih =>
    refine (ih (s.request r)).trans ?_
    rw [(request_dram s r.1 r.2).1]
    split
    · exact (s.dram.record_frame r.1).1
    · rfl

theorem accessAndRespond_dram (s : Channel) (pkt : Packet) :
    (accessAndRespond host pkt s).dram = s.dram.pushResponse pkt ∧
      (accessAndRespond host pkt s).log = s.log := by
  unfold accessAndRespond
  dsimp only
  split
  · exact schedule_dram .sendResponse { s with dram := s.dram.pushResponse pkt }
  · exact ⟨rfl, rfl⟩

/-- A call leaves the event pending, and fails exactly when it already was. -/
theorem schedule_spec (hs : Sound s.queue) (e : DramEvent) :
    ∃ q, s.schedule e = { s with queue := q, failed := s.failed || s.queue.scheduled e } ∧
      Sound q ∧ q.curTick = s.queue.curTick ∧
      (s.queue.scheduled e = true → q = s.queue) ∧
      (s.queue.scheduled e = false → q.scheduled = Function.update s.queue.scheduled e true ∧
        q.when = Function.update s.queue.when e (s.queue.curTick + 1)) := by
  cases he : s.queue.scheduled e with
  | true =>
    refine ⟨s.queue, ?_, hs, rfl, fun _ => rfl, by simp⟩
    simp [schedule, EventQueue.schedule, he]
  | false =>
    have hall : ∀ x, x ∈ [DramEvent.tick, DramEvent.sendResponse] := by
      intro x
      cases x <;> simp
    obtain ⟨q, hrun, hq, hflags, htick, hwhen⟩ :=
      hs.schedule he (Nat.le_succ s.queue.curTick) hall (Nat.lt_succ_self 2)
    refine ⟨q, ?_, hq, htick, by simp, fun _ => ⟨hflags, hwhen⟩⟩
    simp only [Nat.succ_eq_add_one, Nat.reduceAdd] at hrun
    simp [schedule, hrun]

/-- A refused request schedules `tickEvent` and sets the flag; nothing else changes. -/
theorem request_refused (hs : Sound s.queue) (pkt : Packet) :
    ∃ q, s.request (pkt, false) = { s with
        accepts := false
        dram := s.dram.setRetryReq true
        queue := q
        log := .request pkt false s.queue.curTick :: s.log
        failed := s.failed || s.queue.scheduled .tick } ∧
      Sound q ∧ q.curTick = s.queue.curTick ∧
      (s.queue.scheduled .tick = true → q = s.queue) ∧
      (s.queue.scheduled .tick = false →
        q.scheduled = Function.update s.queue.scheduled .tick true ∧
        q.when = Function.update s.queue.when .tick (s.queue.curTick + 1)) := by
  obtain ⟨q, heq, hrest⟩ := schedule_spec hs .tick
  refine ⟨q, ?_, hrest⟩
  simp [request, recvTimingReq, Host.modify, note, schedule_accepts, heq]

/-- `accessAndRespond` queues the response, and leaves `sendResponseEvent` pending unless a retry of
the peer is awaited. -/
theorem accessAndRespond_spec (hs : Sound s.queue) (pkt : Packet) :
    ∃ q, accessAndRespond host pkt s =
        { s with dram := s.dram.pushResponse pkt, queue := q } ∧
      Sound q ∧ q.curTick = s.queue.curTick ∧
      (s.dram.retryResp = true ∨ s.queue.scheduled .sendResponse = true → q = s.queue) ∧
      (s.dram.retryResp = false → s.queue.scheduled .sendResponse = false →
        q.scheduled = Function.update s.queue.scheduled .sendResponse true ∧
        q.when = Function.update s.queue.when .sendResponse (s.queue.curTick + 1)) := by
  let s1 : Channel := { s with dram := s.dram.pushResponse pkt }
  have hretry : s1.dram.retryResp = s.dram.retryResp := rfl
  have heq : accessAndRespond host pkt s =
      if !s.dram.retryResp && !s.queue.scheduled .sendResponse then s1.schedule .sendResponse
      else s1 := rfl
  obtain ⟨q, hsched, hq, htick, -, hnew⟩ := schedule_spec (s := s1) hs .sendResponse
  cases hr : s.dram.retryResp with
  | true =>
    refine ⟨s.queue, ?_, hs, rfl, fun _ => rfl, by simp⟩
    rw [heq, hr]
    rfl
  | false =>
    cases hf : s.queue.scheduled .sendResponse with
    | true =>
      refine ⟨s.queue, ?_, hs, rfl, fun _ => rfl, by simp⟩
      rw [heq, hr, hf]
      rfl
    | false =>
      refine ⟨q, ?_, hq, htick, by simp, fun _ _ => hnew hf⟩
      rw [heq, hr, hf, if_pos (by rfl), hsched]
      simp [s1, hf]

/-- The state after the peer made the requests `rs` and answered the response `pkt`. -/
def answered (rs : List (Packet × Bool)) (taken : Bool) (pkt : Packet) (s : Channel) : Channel :=
  let s := (s.requests rs).note (.sendResp pkt taken)
  { s with dram := if taken then s.dram.popResponse else s.dram.setRetryResp true }

/-- What the steps do. -/
inductive Does : Channel → DramAction → Channel → Prop
  | request {s : Channel} (pkt : Packet) (accepts : Bool) :
      Does s (.request pkt accepts) (s.request (pkt, accepts))
  | read {s : Channel} {addr : Addr} {pkt : Packet} {rest : List Packet}
      (hlook : s.dram.outstandingReads.lookup addr = some (pkt :: rest))
      (hcredit : s.dram.nbrOutstandingReads ≠ 0) :
      Does s (.complete addr false) (note (.complete addr false)
        (accessAndRespond host pkt { s with dram := s.dram.dropRead addr }))
  | write {s : Channel} {addr : Addr} {pkt : Packet} {rest : List Packet}
      (hlook : s.dram.outstandingWrites.lookup addr = some (pkt :: rest))
      (hcredit : s.dram.nbrOutstandingWrites ≠ 0) :
      Does s (.complete addr true)
        (note (.complete addr true) { s with dram := s.dram.dropWrite addr })
  | tick {s : Channel} {rs : List (Packet × Bool)} {taken : Bool} {q : EventQueue DramEvent}
      (htake : s.queue.takeHead = .ok (.tick, q)) (hretry : s.dram.retryReq = true) :
      Does s (.serviceOne rs taken)
        (sendRetryReq rs { s with queue := q, dram := s.dram.setRetryReq false })
  | idleTick {s : Channel} {rs : List (Packet × Bool)} {taken : Bool} {q : EventQueue DramEvent}
      (htake : s.queue.takeHead = .ok (.tick, q)) (hretry : s.dram.retryReq = false) :
      Does s (.serviceOne rs taken) { s with queue := q }
  | send {s : Channel} {rs : List (Packet × Bool)} {taken : Bool} {q : EventQueue DramEvent}
      {pkt : Packet} {rest : List Packet}
      (htake : s.queue.takeHead = .ok (.sendResponse, q)) (hretry : s.dram.retryResp = false)
      (hqueue : s.dram.responseQueue = pkt :: rest) :
      Does s (.serviceOne rs taken) (answered rs taken pkt { s with queue := q })
  | retry {s : Channel} {rs : List (Packet × Bool)} {taken : Bool} {pkt : Packet}
      {rest : List Packet} (hretry : s.dram.retryResp = true)
      (hqueue : s.dram.responseQueue = pkt :: rest) :
      Does s (.respRetry rs taken) (answered rs taken pkt
        (note .respRetry { s with dram := s.dram.setRetryResp false }))
  | advance {s : Channel} {t : Tick} (hle : s.queue.curTick ≤ t)
      (hhead : ∀ e ∈ s.queue.head, t ≤ s.queue.when e) :
      Does s (.advance t) { s with queue := { s.queue with curTick := t } }

/-- A response that was answered. -/
theorem sendResponse_answered {rs : List (Packet × Bool)} {taken : Bool}
    (h : sendResponse host (sendTimingResp rs taken) s = .ok s') :
    s.dram.retryResp = false ∧ ∃ pkt rest, s.dram.responseQueue = pkt :: rest ∧
      s' = answered rs taken pkt s := by
  obtain ⟨hretry, pkt, rest, success, v, hqueue, hsend, rfl⟩ := sendResponse_ok h
  cases hsend
  exact ⟨hretry, pkt, rest, hqueue, rfl⟩

theorem step_does {action : DramAction} (h : step s action = some s') :
    s.failed = false ∧ Does s action s' := by
  unfold step at h
  split at h
  · cases h
  · rename_i hrun
    refine ⟨by simpa using hrun, ?_⟩
    cases action with
    | request pkt accepts =>
      cases h
      exact .request pkt accepts
    | complete addr isWrite =>
      have hok := ok_of_toOption h
      cases isWrite with
      | true =>
        simp only [complete, if_true] at hok
        cases hw : writeComplete host addr s with
        | error e => simp [hw, Except.map] at hok
        | ok v =>
          rw [hw] at hok
          cases hok
          obtain ⟨pkt, rest, hlook, hcredit, rfl⟩ := writeComplete_ok hw
          exact .write hlook hcredit
      | false =>
        simp only [complete, Bool.false_eq_true, if_false] at hok
        cases hr : readComplete host addr s with
        | error e => simp [hr, Except.map] at hok
        | ok v =>
          rw [hr] at hok
          cases hok
          obtain ⟨pkt, rest, hlook, hcredit, rfl⟩ := readComplete_ok hr
          exact .read hlook hcredit
    | serviceOne rs taken =>
      dsimp only at h
      split at h
      · cases h
      · rename_i e q htake
        have hok := ok_of_toOption h
        cases e with
        | tick =>
          cases hok
          unfold tick
          split
          · rename_i hretry
            exact .tick htake hretry
          · rename_i hretry
            exact .idleTick htake (by simpa using hretry)
        | sendResponse =>
          obtain ⟨hretry, pkt, rest, hqueue, rfl⟩ := sendResponse_answered hok
          exact .send htake hretry hqueue
    | respRetry rs taken =>
      have hok := ok_of_toOption h
      unfold respRetry recvRespRetry at hok
      split at hok
      · rename_i hretry
        obtain ⟨-, pkt, rest, hqueue, rfl⟩ := sendResponse_answered hok
        exact .retry hretry hqueue
      · cases hok
    | advance t =>
      dsimp only at h
      split at h
      · rename_i hcond
        cases h
        exact .advance hcond.1 hcond.2
      · cases h

end Channel

end NetSim.Dram
