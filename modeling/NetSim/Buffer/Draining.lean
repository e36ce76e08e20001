import NetSim.Buffer.UpBuffer
import NetSim.Library.Reach

/-!
# Which responses leave the buffer

An `UpBuffer` whose requests and retries are answered in any way. Responses leave it only in
`send_data_2cal`, the function of `send_data_retryrespEvent`, and that event is scheduled nowhere
but in the function itself. A response that arrives schedules `tickEvent` instead, which makes new
requests. So the drain is never scheduled (`drain_never_scheduled`), and the runs in which every
buffered response has a drain pending are those without responses.
-/

namespace NetSim.Buffer

open Common Library Arbiter

/-- What happens at the ports of the buffer, with the answers. -/
inductive BufferEntry
  /-- `requestPorts[port].sendTimingReq(pkt)` returned `accepted`. -/
  | request (port : PortId) (pkt : Packet) (accepted : Bool)
  /-- `recvTimingResp(pkt, port)` returned `accepted`. -/
  | response (port : PortId) (pkt : Packet) (accepted : Bool)
  /-- `recvReqRetry()` of `requestPorts[port]` was called. -/
  | retryReq (port : PortId)
  /-- `requestPorts[port].sendRetryResp()` was called. -/
  | retryResp (port : PortId)
deriving DecidableEq, Repr

/-- A buffer and its history, latest entry first. -/
structure Upstream where
  buffer : UpBuffer
  log : List BufferEntry

/-- What the environment does: the downstream answers requests, sends a response or a retry, or the
queue services one of the two events. A handler makes at most one request at each port. -/
inductive BufferAction
  | init (answers : PortId → Bool)
  | response (port : PortId) (pkt : Packet)
  | tick (answers : PortId → Bool)
  | sendData
  | retryReq (port : PortId) (accepted : Bool)

namespace Upstream

/-- Run a handler whose requests are answered by `answers`. -/
def answer (answers : PortId → Bool) : Reaction 1 UpBuffer Unit → List BufferEntry → Upstream
  | .done _ b, log => ⟨b, log⟩
  | .request port _ pkt b next, log =>
    answer answers (next (answers port) b) (.request port pkt (answers port) :: log)

/-- One step. `EventQueue::serviceOne` clears the flag of the event before it is processed. -/
def step (s : Upstream) : BufferAction → Option Upstream
  | .init answers => some (answer answers (s.buffer.initHandler 0) s.log)
  | .response port pkt =>
    let r := s.buffer.recvTimingResp port pkt
    some ⟨r.2, .response port pkt r.1 :: s.log⟩
  | .tick answers =>
    if s.buffer.tickEvent then
      some (answer answers (UpBuffer.sendpktEvent 0 { s.buffer with tickEvent := false }) s.log)
    else none
  | .sendData =>
    if s.buffer.sendDataRetryrespEvent then
      some ⟨UpBuffer.sendData2cal { s.buffer with sendDataRetryrespEvent := false }, s.log⟩
    else none
  | .retryReq port accepted =>
    some (answer (fun _ => accepted) (s.buffer.sendRetryReq 0 port) (.retryReq port :: s.log))

/-- The buffer that the constructor leaves. -/
def start (name : Nat) (addrInit : Addr) (retryResp : PortId → Bool) : Upstream :=
  ⟨.init name addrInit retryResp, []⟩

/-! ## Responses that are not stranded -/

/-- A response on `port` was refused, and no retry has been sent since. -/
def Awaiting (port : PortId) : List BufferEntry → Prop
  | [] => False
  | .response p _ false :: log => p = port ∨ Awaiting port log
  | .retryResp p :: log => p ≠ port ∧ Awaiting port log
  | .response _ _ true :: log | .request .. :: log | .retryReq _ :: log => Awaiting port log

/-- Buffered data has a drain pending. -/
def DrainPending (s : Upstream) : Prop :=
  ∀ port, s.buffer.bufferData port ≠ [] → s.buffer.sendDataRetryrespEvent = true

/-- A step that makes room on a port where a response was refused sends a retry there. -/
def RetriesRefused (s s' : Upstream) : Prop :=
  ∀ port, Awaiting port s.log → bufSize < s.buffer.bufferdataNum port →
    s'.buffer.bufferdataNum port ≤ bufSize →
      ∃ recent, s'.log = recent ++ s.log ∧ .retryResp port ∈ recent

/-- The step strands no response. -/
def Serves (s : Upstream) (action : BufferAction) : Prop :=
  ∀ s', step s action = some s' → DrainPending s' ∧ RetriesRefused s s'

/-- The action brings no response. -/
def NoResponse (_ : Upstream) : BufferAction → Prop
  | .response .. => False
  | .init _ | .tick _ | .sendData | .retryReq .. => True

/-- No port has data, and no drain is pending. -/
structure Idle (b : UpBuffer) : Prop where
  data : ∀ port, b.bufferData port = []
  num : ∀ port, b.bufferdataNum port = 0
  event : b.sendDataRetryrespEvent = false

variable {s s' : Upstream} {b b' : UpBuffer}

/-! ## Handlers that make requests -/

/-- The two buffers hold the same data and agree on whether a drain is pending. -/
structure SameData (b b' : UpBuffer) : Prop where
  data : b'.bufferData = b.bufferData
  num : b'.bufferdataNum = b.bufferdataNum
  event : b'.sendDataRetryrespEvent = b.sendDataRetryrespEvent

theorem SameData.trans {b'' : UpBuffer} (h : SameData b b') (h' : SameData b' b'') :
    SameData b b'' :=
  ⟨h'.data.trans h.data, h'.num.trans h.num, h'.event.trans h.event⟩

theorem SameData.idle (h : SameData b b') (hb : Idle b) : Idle b' where
  data port := by rw [h.data, hb.data]
  num port := by rw [h.num, hb.num]
  event := h.event.trans hb.event

theorem answer_initFrom (answers : PortId → Bool) (ports : List PortId) (log : List BufferEntry)
    (b : UpBuffer) : SameData b (answer answers (UpBuffer.initFrom 0 ports b) log).buffer := by
  induction ports generalizing b log with
  | nil => exact ⟨rfl, rfl, rfl⟩
  | cons port ports ih =>
    refine .trans ?_ (ih _ _)
    exact ⟨rfl, rfl, rfl⟩

theorem answer_sendpktFrom (answers : PortId → Bool) (ports : List PortId) (log : List BufferEntry)
    (b : UpBuffer) : SameData b (answer answers (UpBuffer.sendpktFrom 0 ports b) log).buffer := by
  induction ports generalizing b log with
  | nil => exact ⟨rfl, rfl, rfl⟩
  | cons port ports ih =>
    unfold UpBuffer.sendpktFrom
    split
    · refine .trans ?_ (ih _ _)
      exact ⟨rfl, rfl, rfl⟩
    · refine .trans ?_ (ih _ _)
      split
      · exact ⟨rfl, rfl, rfl⟩
      · exact ⟨rfl, rfl, rfl⟩

/-- A step that brings no response changes no data unless a drain is pending. -/
theorem step_sameData {action : BufferAction} (hevent : s.buffer.sendDataRetryrespEvent = false)
    (hno : NoResponse s action) (hstep : step s action = some s') :
    SameData s.buffer s'.buffer := by
  cases action with
  | init answers =>
    cases hstep
    exact answer_initFrom answers banks _ _
  | response port pkt => exact hno.elim
  | tick answers =>
    simp only [step] at hstep
    split at hstep
    · cases hstep
      refine .trans ?_ (answer_sendpktFrom answers banks _ _)
      exact ⟨rfl, rfl, rfl⟩
    · cases hstep
  | sendData => simp [step, hevent] at hstep
  | retryReq port accepted =>
    cases hstep
    exact ⟨rfl, rfl, rfl⟩

theorem recvTimingResp_event (b : UpBuffer) (port : PortId) (pkt : Packet) :
    (b.recvTimingResp port pkt).2.sendDataRetryrespEvent = b.sendDataRetryrespEvent := by
  unfold UpBuffer.recvTimingResp
  split
  · rfl
  · dsimp only
    split
    · rfl
    · rfl

/-- In no run is the event that drains the buffer ever scheduled. -/
theorem drain_never_scheduled {name : Nat} {addrInit : Addr} {retryResp : PortId → Bool}
    (h : Reach (Steps step) Free (start name addrInit retryResp) s) :
    s.buffer.sendDataRetryrespEvent = false := by
  refine h.invariant (fun s => s.buffer.sendDataRetryrespEvent = false) rfl ?_
  intro s action s' _ hs _ hstep
  by_cases hno : NoResponse s action
  · exact (step_sameData hs hno hstep).event.trans hs
  · cases action with
    | response port pkt =>
      cases hstep
      exact (recvTimingResp_event s.buffer port pkt).trans hs
    | init | tick | sendData | retryReq => exact absurd trivial hno

/-! ## Runs -/

/-- The first response is kept, and nothing is scheduled that would drain it. -/
theorem response_not_serves (hs : Idle s.buffer) (port : PortId) (pkt : Packet) :
    ¬ Serves s (.response port pkt) := by
  intro hserves
  obtain ⟨hdrain, -⟩ := hserves _ rfl
  -- an empty port has room, so the response is kept
  have hroom : ¬ s.buffer.bufferdataNum port > bufSize := by
    rw [hs.num]
    exact Nat.not_lt_zero _
  have hevent := hdrain port
  simp only [UpBuffer.recvTimingResp, if_neg hroom] at hevent
  split at hevent
  · simp [UpBuffer.pushData, hs.event] at hevent
  · simp [UpBuffer.pushData, hs.event] at hevent

theorem serves_iff_noResponse {action : BufferAction} (hs : Idle s.buffer) :
    NoResponse s action ↔ Serves s action := by
  constructor
  · intro hno s' hstep
    have hs' := (step_sameData hs.event hno hstep).idle hs
    refine ⟨fun port hdata => absurd (hs'.data port) hdata, fun port _ hfull => ?_⟩
    rw [hs.num] at hfull
    exact absurd hfull (Nat.not_lt_zero _)
  · intro hserves
    cases action with
    | response port pkt => exact response_not_serves hs port pkt hserves
    | init | tick | sendData | retryReq => trivial

/-- The runs in which no step strands a response are exactly the runs without responses. -/
theorem responses_served_iff (name : Nat) (addrInit : Addr) (retryResp : PortId → Bool) :
    (Reach (Steps step) NoResponse (start name addrInit retryResp) s ↔
      Reach (Steps step) Serves (start name addrInit retryResp) s) ∧
    (Reach (Steps step) NoResponse (start name addrInit retryResp) s → DrainPending s) := by
  have hstart : Idle (start name addrInit retryResp).buffer := ⟨fun _ => rfl, fun _ => rfl, rfl⟩
  have hkeep : ∀ s action s', step s action = some s' → Idle s.buffer → NoResponse s action →
      Idle s'.buffer :=
    fun _ _ _ hstep hs hno => (step_sameData hs.event hno hstep).idle hs
  constructor
  · exact Reach.congr_of_invariant (fun s => Idle s.buffer) hstart hkeep
      (fun _ _ hs => serves_iff_noResponse hs)
  · intro h
    have hs := h.invariant (fun s => Idle s.buffer) hstart
      fun s action s' _ hs hno hstep => hkeep s action s' hstep hs hno
    exact fun port hdata => absurd (hs.data port) hdata

/-- Five responses arrive on a port, with the requests of `tickEvent` between them. Four are kept
and the fifth is refused. No event is left that would drain the four. -/
theorem responses_stranded :
    ¬ ∀ s, Reach (Steps step) Free (start 0 0 fun _ => false) s → DrainPending s := by
  intro h
  obtain ⟨s, hs, hp⟩ := Reach.of_run step Free (start 0 0 fun _ => false)
    [.init fun _ => true, .response 0 ⟨0, 0, false⟩, .tick fun _ => true,
      .response 0 ⟨1, 512, false⟩, .response 0 ⟨2, 512, false⟩, .response 0 ⟨3, 512, false⟩,
      .tick fun _ => true, .response 0 ⟨4, 512, false⟩]
    (fun s => s.log.head? = some (.response 0 ⟨4, 512, false⟩ false) ∧
      s.buffer.bufferData 0 ≠ [] ∧ s.buffer.tickEvent = false ∧
      s.buffer.sendDataRetryrespEvent = false) (by decide +kernel)
  obtain ⟨-, hdata, -, hevent⟩ := of_decide_eq_true hp
  rw [h s hs 0 hdata] at hevent
  cases hevent

end Upstream

end NetSim.Buffer
