import NetSim.Common.Packet
import NetSim.Library.QueueMap

/-!
# The memory object of a channel

`DRAMsim3` of `src/dram/dramsim3.h` and `src/dram/dramsim3.cpp`: it takes requests at its port,
hands them to `dramsim3_wrapper`, and sends a response for every read that the wrapper reports
as complete.

The handlers are written over any state that holds the object. `Host` gives the access to it
and the calls that leave it for the wrapper and the event queue; the calls of its port are
arguments of the handlers that make them.
-/

namespace NetSim.Dram

open Common Library

/-- The fields of `DRAMsim3`. -/
structure DRAMsim3 where
  retryReq : Bool
  retryResp : Bool
  outstandingReads : QueueMap Addr Packet
  outstandingWrites : QueueMap Addr Packet
  nbrOutstandingReads : Nat
  nbrOutstandingWrites : Nat
  responseQueue : List Packet

namespace DRAMsim3

/-- The state that the constructor leaves. -/
def init : DRAMsim3 where
  retryReq := false
  retryResp := false
  outstandingReads := ∅
  outstandingWrites := ∅
  nbrOutstandingReads := 0
  nbrOutstandingWrites := 0
  responseQueue := []

/-- Record an accepted transaction; the counters are `unsigned int`. -/
def record (d : DRAMsim3) (pkt : Packet) : DRAMsim3 :=
  if !pkt.isWrite then
    { d with
      outstandingReads := d.outstandingReads.push pkt.addr pkt
      nbrOutstandingReads := (d.nbrOutstandingReads + 1) % 2 ^ 32 }
  else
    { d with
      outstandingWrites := d.outstandingWrites.push pkt.addr pkt
      nbrOutstandingWrites := (d.nbrOutstandingWrites + 1) % 2 ^ 32 }

/-- Drop the oldest read of an address. -/
def dropRead (d : DRAMsim3) (addr : Addr) : DRAMsim3 :=
  { d with
    outstandingReads := d.outstandingReads.pop addr
    nbrOutstandingReads := d.nbrOutstandingReads - 1 }

/-- Drop the oldest write of an address. -/
def dropWrite (d : DRAMsim3) (addr : Addr) : DRAMsim3 :=
  { d with
    outstandingWrites := d.outstandingWrites.pop addr
    nbrOutstandingWrites := d.nbrOutstandingWrites - 1 }

def pushResponse (d : DRAMsim3) (pkt : Packet) : DRAMsim3 :=
  { d with responseQueue := d.responseQueue ++ [pkt] }

def popResponse (d : DRAMsim3) : DRAMsim3 := { d with responseQueue := d.responseQueue.tail }

def setRetryReq (d : DRAMsim3) (flag : Bool) : DRAMsim3 := { d with retryReq := flag }

def setRetryResp (d : DRAMsim3) (flag : Bool) : DRAMsim3 := { d with retryResp := flag }

end DRAMsim3

/-- The two events of the object. -/
inductive DramEvent
  | tick
  | sendResponse
deriving DecidableEq, Repr

/-- A state with a `DRAMsim3` in it, its wrapper and its event queue. -/
structure Host (σ : Type) where
  dram : σ → DRAMsim3
  setDram : DRAMsim3 → σ → σ
  canAccept : Addr → Bool → σ → Bool × σ
  sendRequest : Addr → Bool → σ → σ
  scheduled : DramEvent → σ → Bool
  /-- `schedule(event, curTick() + 1)` -/
  schedule : DramEvent → σ → σ

/-- The asserts of the handlers, `front()` and `pop()` of an empty queue, and a failed assert of
the peer. -/
inductive Abort
  | retryRespSet
  | noResponse
  | retryRespClear
  | noTransaction
  | emptyQueue
  | noCredit
  | peer
deriving DecidableEq, Repr

variable {σ : Type} (H : Host σ)

def Host.modify (f : DRAMsim3 → DRAMsim3) (s : σ) : σ := H.setDram (f (H.dram s)) s

/-- `DRAMsim3::sendResponse`; `send` is `port.sendTimingResp`. -/
def sendResponse (send : Packet → σ → Except Abort (Bool × σ)) (s : σ) : Except Abort σ :=
  if (H.dram s).retryResp then .error .retryRespSet
  else match (H.dram s).responseQueue with
    | [] => .error .noResponse
    | pkt :: _ =>
      match send pkt s with
      | .error e => .error e
      | .ok (success, s) =>
        if success then .ok (H.modify (·.popResponse) s)
        else .ok (H.modify (·.setRetryResp true) s)

/-- `DRAMsim3::tick`; `sendRetryReq` is that of the port. -/
def tick (sendRetryReq : σ → σ) (s : σ) : σ :=
  if (H.dram s).retryReq then sendRetryReq (H.modify (·.setRetryReq false) s) else s

/-- `DRAMsim3::recvTimingReq`. The refusal schedules `tickEvent` without asking whether it is
scheduled. -/
def recvTimingReq (pkt : Packet) (s : σ) : Bool × σ :=
  let r := H.canAccept pkt.addr pkt.isWrite s
  if r.1 then (true, H.sendRequest pkt.addr pkt.isWrite (H.modify (·.record pkt) r.2))
  else (false, H.modify (·.setRetryReq true) (H.schedule .tick r.2))

/-- `DRAMsim3::recvRespRetry` -/
def recvRespRetry (send : Packet → σ → Except Abort (Bool × σ)) (s : σ) : Except Abort σ :=
  if (H.dram s).retryResp then sendResponse H send (H.modify (·.setRetryResp false) s)
  else .error .retryRespClear

/-- `DRAMsim3::accessAndRespond` -/
def accessAndRespond (pkt : Packet) (s : σ) : σ :=
  let s := H.modify (·.pushResponse pkt) s
  if !(H.dram s).retryResp && !H.scheduled .sendResponse s then H.schedule .sendResponse s else s

/-- `DRAMsim3::readComplete` -/
def readComplete (addr : Addr) (s : σ) : Except Abort σ :=
  match (H.dram s).outstandingReads.lookup addr with
  | none => .error .noTransaction
  | some [] => .error .emptyQueue
  | some (pkt :: _) =>
    if (H.dram s).nbrOutstandingReads = 0 then .error .noCredit
    else .ok (accessAndRespond H pkt (H.modify (·.dropRead addr) s))

/-- `DRAMsim3::writeComplete` -/
def writeComplete (addr : Addr) (s : σ) : Except Abort σ :=
  match (H.dram s).outstandingWrites.lookup addr with
  | none => .error .noTransaction
  | some [] => .error .emptyQueue
  | some (_ :: _) =>
    if (H.dram s).nbrOutstandingWrites = 0 then .error .noCredit
    else .ok (H.modify (·.dropWrite addr) s)

/-! ## What a handler that returns has done -/

/-- Recording a transaction leaves the flags and the response queue alone. -/
theorem DRAMsim3.record_frame (d : DRAMsim3) (pkt : Packet) :
    (d.record pkt).responseQueue = d.responseQueue ∧ (d.record pkt).retryResp = d.retryResp ∧
      (d.record pkt).retryReq = d.retryReq := by
  unfold DRAMsim3.record
  split <;> exact ⟨rfl, rfl, rfl⟩

variable {H} {s s' : σ} {addr : Addr}

theorem sendResponse_ok {send : Packet → σ → Except Abort (Bool × σ)}
    (h : sendResponse H send s = .ok s') :
    (H.dram s).retryResp = false ∧ ∃ pkt rest success v,
      (H.dram s).responseQueue = pkt :: rest ∧ send pkt s = .ok (success, v) ∧
      s' = H.modify (fun d => if success then d.popResponse else d.setRetryResp true) v := by
  unfold sendResponse at h
  split at h
  · cases h
  · rename_i hretry
    refine ⟨by simpa using hretry, ?_⟩
    split at h
    · cases h
    · rename_i pkt rest hqueue
      split at h
      · cases h
      · rename_i success v hsend
        refine ⟨pkt, rest, success, v, hqueue, hsend, ?_⟩
        cases success with
        | true =>
          cases h
          rfl
        | false =>
          cases h
          rfl

theorem readComplete_ok (h : readComplete H addr s = .ok s') :
    ∃ pkt rest, (H.dram s).outstandingReads.lookup addr = some (pkt :: rest) ∧
      (H.dram s).nbrOutstandingReads ≠ 0 ∧
      s' = accessAndRespond H pkt (H.modify (·.dropRead addr) s) := by
  unfold readComplete at h
  split at h
  · cases h
  · cases h
  · rename_i pkt rest hlook
    split at h
    · cases h
    · rename_i hcredit
      cases h
      exact ⟨pkt, rest, hlook, hcredit, rfl⟩

theorem writeComplete_ok (h : writeComplete H addr s = .ok s') :
    ∃ pkt rest, (H.dram s).outstandingWrites.lookup addr = some (pkt :: rest) ∧
      (H.dram s).nbrOutstandingWrites ≠ 0 ∧ s' = H.modify (·.dropWrite addr) s := by
  unfold writeComplete at h
  split at h
  · cases h
  · cases h
  · rename_i pkt rest hlook
    split at h
    · cases h
    · rename_i hcredit
      cases h
      exact ⟨pkt, rest, hlook, hcredit, rfl⟩

end NetSim.Dram
