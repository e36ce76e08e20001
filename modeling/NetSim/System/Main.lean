import NetSim.Arbiter.Calls
import NetSim.Library.Loop
import NetSim.System.Clock
import NetSim.System.Network

/-!
# The simulation loop of `main`

All objects of `src/main.cpp` on one event queue: the arbiter, a memory object for each bank, the
wrapper and the buffers. `main` calls `init` of every object and then services the queue while it is
not empty and the clock is below 1000.

The handlers are those of the components. What they do to the queue is a sequence of calls of
`schedule(event, curTick() + 1)`; a call whose assert fails is remembered in `failed`, and one whose
loop over the queue does not end in `hung`. The arbiter and the buffers carry a copy of the
`_scheduled` flag of each of their events, which is cleared when the event is taken from the queue
and set when it is scheduled.
-/

namespace NetSim.System

open Common Library Event Arbiter Dram Buffer

/-- The event objects of `main`. -/
inductive ObjEvent (n : Nat)
  | component (e : EventId)
  | bufferTick (up : Fin n)
  | bufferSendData (up : Fin n)
deriving DecidableEq, Repr

def ObjEvent.all (n : Nat) : List (ObjEvent n) :=
  EventId.all.map .component ++
    (List.finRange n).flatMap fun up => [.bufferTick up, .bufferSendData up]

/-- Everything around the arbiter. -/
structure Plant (n : Nat) (μ : Type) where
  queue : EventQueue (ObjEvent n)
  drams : Bank → DRAMsim3
  memory : μ
  buffers : Buffers n
  failed : Bool
  hung : Bool

variable {n : Nat} {μ : Type}

namespace Plant

/-- `EventQueue::schedule`, called by a component. The fuel is more than the number of event
objects. -/
def scheduleAt (e : ObjEvent n) (when : Tick) (p : Plant n μ) : Plant n μ :=
  match p.queue.schedule ((ObjEvent.all n).length + 1) e when with
  | .ok q => { p with queue := q }
  | .error .assertion => { p with failed := true }
  | .error _ => { p with hung := true }

/-- `schedule(event, curTick() + 1)` -/
def schedule (e : ObjEvent n) (p : Plant n μ) : Plant n μ :=
  p.scheduleAt e (p.queue.curTick + 1)

/-- A handler of a buffer has changed the buffer; when it has set the flag of an event, it has
scheduled the event. -/
def setBuffer (up : Fin n) (b : UpBuffer) (p : Plant n μ) : Plant n μ :=
  let old := p.buffers up
  let p := { p with buffers := Function.update p.buffers up b }
  let p := if b.tickEvent && !old.tickEvent then p.schedule (.bufferTick up) else p
  if b.sendDataRetryrespEvent && !old.sendDataRetryrespEvent then
    p.schedule (.bufferSendData up)
  else p

/-- What the buffer `up` does. -/
def react {ρ : Type} (up : Fin n) : Reaction n UpBuffer ρ → Plant n μ → Reaction n (Plant n μ) ρ
  | .done result b, p => .done result (p.setBuffer up b)
  | .request bank target pkt b next, p =>
    .request bank target pkt (p.setBuffer up b) fun accepted p =>
      react up (next accepted (p.buffers up)) p

end Plant

/-- The memory object of a bank. -/
def plantHost (M : MemorySystem μ) (bank : Bank) : Host (Plant n μ) where
  dram p := p.drams bank
  setDram d p := { p with drams := Function.update p.drams bank d }
  canAccept addr isWrite p :=
    let r := M.willAcceptTransaction addr isWrite p.memory
    (r.1, { p with memory := r.2 })
  sendRequest addr isWrite p := { p with memory := M.addTransaction addr isWrite p.memory }
  scheduled e p := p.queue.scheduled (.component (.dram bank e))
  schedule e p := p.schedule (.component (.dram bank e))

/-- The same object, seen from the whole system. -/
def mainHost (M : MemorySystem μ) (bank : Bank) : Host (World (Plant n μ)) where
  dram w := (plantHost M bank).dram w.rest
  setDram d w := { w with rest := (plantHost M bank).setDram d w.rest }
  canAccept addr isWrite w :=
    let r := (plantHost M bank).canAccept addr isWrite w.rest
    (r.1, { w with rest := r.2 })
  sendRequest addr isWrite w :=
    { w with rest := (plantHost M bank).sendRequest addr isWrite w.rest }
  scheduled e w := (plantHost M bank).scheduled e w.rest
  schedule e w := { w with rest := (plantHost M bank).schedule e w.rest }

section Handlers

variable (c : Config) (M : MemorySystem μ)

/-- The peers of the arbiter. -/
def mainPeers : Peers c.numUpstreams (Plant c.numUpstreams μ) where
  sendTimingReq bank pkt p := recvTimingReq (plantHost M bank) pkt p
  sendTimingResp bank up pkt p :=
    if h : up < c.numUpstreams then
      let r := (p.buffers ⟨up, h⟩).recvTimingResp bank pkt
      .done r.1 (p.setBuffer ⟨up, h⟩ r.2)
    else .done false p
  recvReqRetry bank up p :=
    if h : up < c.numUpstreams then
      p.react ⟨up, h⟩ ((p.buffers ⟨up, h⟩).sendRetryReq ⟨up, h⟩ bank)
    else .done () p
  schedule e p := p.schedule (.component (.arb e))

/-- `ArbRequestPort::recvTimingResp` -/
def mainRespond (bank : Bank) (pkt : Packet) (w : World (Plant c.numUpstreams μ)) :
    Except Dram.Abort (Bool × World (Plant c.numUpstreams μ)) :=
  match recvTimingResp c (mainPeers c M) pkt bank w with
  | .ok w => .ok (true, w)
  | .error _ => .error .peer

omit c in
/-- `dramsim3_wrapper::global_read_callback` and `global_write_callback` -/
def mainComplete (w : World (Plant n μ)) (t : Completion) :
    Except Dram.Abort (World (Plant n μ)) :=
  let bank := M.getChannel t.addr
  if t.isWrite then writeComplete (mainHost M bank) t.addr w
  else readComplete (mainHost M bank) t.addr w

omit c in
/-- `dramsim3_wrapper::tick` -/
def mainWrapperTick (w : World (Plant n μ)) : Except Dram.Abort (World (Plant n μ)) :=
  let r := M.clockTick w.rest.memory
  match r.1.foldlM (mainComplete M) { w with rest := { w.rest with memory := r.2 } } with
  | .error e => .error e
  | .ok w =>
    if w.rest.queue.scheduled (.component .wrapperTick) then .ok w
    else .ok { w with rest := w.rest.schedule (.component .wrapperTick) }

/-- Run a handler of the buffer `up`. -/
def mainBuffer (up : Fin c.numUpstreams)
    (handler : UpBuffer → Reaction c.numUpstreams UpBuffer Unit)
    (w : World (Plant c.numUpstreams μ)) : World (Plant c.numUpstreams μ) :=
  ((w.rest.react up (handler (w.rest.buffers up))).run c (mainPeers c M) w).2

/-- `Event::process` -/
def mainProcess (w : World (Plant c.numUpstreams μ)) :
    ObjEvent c.numUpstreams → Except Dram.Abort (World (Plant c.numUpstreams μ))
  | .component (.arb .arb) => .ok (arbitrate c (mainPeers c M) w)
  | .component (.arb .sendResponse) => .ok (Arbiter.sendResponse c (mainPeers c M) w)
  | .component (.dram bank .tick) =>
    .ok (tick (mainHost M bank) (handleReqRetry c (mainPeers c M) bank) w)
  | .component (.dram bank .sendResponse) =>
    Dram.sendResponse (mainHost M bank) (mainRespond c M bank) w
  | .component .wrapperTick => mainWrapperTick M w
  | .bufferTick up => .ok (mainBuffer c M up (UpBuffer.sendpktEvent up) w)
  | .bufferSendData up => .ok (mainBuffer c M up (fun b => .done () b.sendData2cal) w)

end Handlers

/-! ## The loop -/

/-- The copy of the flag of an event is cleared with the flag. -/
def clearCopy (e : ObjEvent n) (w : World (Plant n μ)) : World (Plant n μ) :=
  match e with
  | .component (.arb .arb) => w.clearArbEvent
  | .component (.arb .sendResponse) => w.clearSendResponseEvent
  | .component _ => w
  | .bufferTick up =>
    { w with rest := { w.rest with
      buffers := Function.update w.rest.buffers up
        { w.rest.buffers up with tickEvent := false } } }
  | .bufferSendData up =>
    { w with rest := { w.rest with
      buffers := Function.update w.rest.buffers up
        { w.rest.buffers up with sendDataRetryrespEvent := false } } }

/-- The event is unlinked from the queue, and the clock is set. -/
def taken (e : ObjEvent n) (q : EventQueue (ObjEvent n)) (w : World (Plant n μ)) :
    World (Plant n μ) :=
  clearCopy e { w with rest := { w.rest with queue := q } }

/-- The objects, and the events serviced so far with their ticks, latest first. -/
structure Simulation (n : Nat) (μ : Type) where
  world : World (Plant n μ)
  services : List (ObjEvent n × Tick)

/-- The bound of the clock in the loop of `main`. -/
def maxTick : Tick := 1000

section Loop

variable (c : Config) (M : MemorySystem μ)

/-- A turn of the loop. -/
def mainTurn (s : Simulation c.numUpstreams μ) : Iteration (Simulation c.numUpstreams μ) :=
  if s.world.rest.queue.head.isNone || maxTick ≤ s.world.rest.queue.curTick then .exit
  else match s.world.rest.queue.takeHead with
    | .error _ => .abort
    | .ok (e, q) =>
      match mainProcess c M (taken e q s.world) e with
      | .error _ => .abort
      | .ok w =>
        if w.rest.hung then .hang
        else if w.rest.failed then .abort
        else .next ⟨w, (e, q.curTick) :: s.services⟩

/-- All objects are constructed, and `dramsim3_wrapper::init` has scheduled the clock. -/
def Plant.init (addrInit : Fin n → Addr) (retryResp : Fin n → PortId → Bool) (m : μ) : Plant n μ :=
  scheduleAt (.component .wrapperTick) 0
    { queue := .init fun _ => 0
      drams := fun _ => .init
      memory := m
      buffers := fun up => .init up (addrInit up) (retryResp up)
      failed := false
      hung := false }

/-- `init` of every object has returned. -/
def mainInit (addrInit : Fin c.numUpstreams → Addr)
    (retryResp : Fin c.numUpstreams → PortId → Bool) (m : μ) : Simulation c.numUpstreams μ where
  world := (List.finRange c.numUpstreams).foldl
    (fun w up => mainBuffer c M up (UpBuffer.initHandler up) w)
    (World.init (Plant.init addrInit retryResp m))
  services := []

end Loop

end NetSim.System
