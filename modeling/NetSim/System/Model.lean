import NetSim.Arbiter.Handlers
import NetSim.Dram.Handlers
import NetSim.Event.Queue
import NetSim.Library.Reach

/-!
# The memory system

The arbiter with its request ports bound to one `DRAMsim3` for each bank, all on one event queue.
The memory objects share a `dramsim3_wrapper`, whose own event calls the clock of the vendored
memory model; the memory model reports completed transactions from inside that call. The memory
model and the upstreams are parameters.

A call of `schedule` whose assert fails ends the program. The handlers of the arbiter are total,
so such a call is remembered in `failed` and no step is taken from a state with that flag.
-/

namespace NetSim.System

open Common Library Event Arbiter Dram

/-- The event objects of the components. -/
inductive EventId
  | arb (e : ArbEvent)
  | dram (bank : Bank) (e : DramEvent)
  | wrapperTick
deriving DecidableEq, Repr

def EventId.all : List EventId :=
  .wrapperTick :: .arb .arb :: .arb .sendResponse ::
    banks.flatMap fun bank => [.dram bank .tick, .dram bank .sendResponse]

/-- More than the number of event objects, and so enough for every loop of the queue. -/
def fuel : Nat := EventId.all.length + 1

/-- A transaction that the memory model reports as complete. -/
structure Completion where
  addr : Addr
  isWrite : Bool
deriving DecidableEq, Repr

/-- The memory model behind `dramsim3_wrapper`, with its callbacks during one `ClockTick`. -/
structure MemorySystem (μ : Type) where
  willAcceptTransaction : Addr → Bool → μ → Bool × μ
  addTransaction : Addr → Bool → μ → μ
  clockTick : μ → List Completion × μ
  getChannel : Addr → Bank

/-- A memory model that gives every request the same answer and completes none. -/
def MemorySystem.constant (accepts : Bool) : MemorySystem Unit where
  willAcceptTransaction _ _ m := (accepts, m)
  addTransaction _ _ m := m
  clockTick m := ([], m)
  getChannel _ := 0

/-- What the upstreams do when the arbiter calls them. -/
structure Upstreams (n : Nat) (υ : Type) where
  recvTimingResp : Bank → Nat → Packet → υ → Reaction n υ Bool
  recvReqRetry : Bank → Nat → υ → Reaction n υ Unit

/-- Upstreams that give every response the same answer and do nothing when they get a retry. -/
def Upstreams.constant {n : Nat} (takesResp : Bool) : Upstreams n Unit where
  recvTimingResp _ _ _ u := .done takesResp u
  recvReqRetry _ _ u := .done () u

/-- Everything around the arbiter. -/
structure Outside (υ μ : Type) where
  queue : EventQueue EventId
  drams : Bank → DRAMsim3
  memory : μ
  upstream : υ
  failed : Bool

variable {υ μ : Type}

namespace Outside

/-- `EventQueue::schedule`, called by a component. -/
def scheduleAt (e : EventId) (when : Tick) (o : Outside υ μ) : Outside υ μ :=
  match o.queue.schedule fuel e when with
  | .ok q => { o with queue := q }
  | .error _ => { o with failed := true }

/-- `schedule(event, curTick() + 1)` -/
def schedule (e : EventId) (o : Outside υ μ) : Outside υ μ :=
  o.scheduleAt e (o.queue.curTick + 1)

/-- All components are constructed, and `dramsim3_wrapper::init` has scheduled the clock. -/
def init (u : υ) (m : μ) : Outside υ μ :=
  scheduleAt .wrapperTick 0
    { queue := .init fun _ => 0
      drams := fun _ => .init
      memory := m
      upstream := u
      failed := false }

end Outside

/-- The memory object of a bank, with its wrapper and the queue. -/
def host (M : MemorySystem μ) (bank : Bank) : Host (Outside υ μ) where
  dram o := o.drams bank
  setDram d o := { o with drams := Function.update o.drams bank d }
  canAccept addr isWrite o :=
    let r := M.willAcceptTransaction addr isWrite o.memory
    (r.1, { o with memory := r.2 })
  sendRequest addr isWrite o := { o with memory := M.addTransaction addr isWrite o.memory }
  scheduled e o := o.queue.scheduled (.dram bank e)
  schedule e o := o.schedule (.dram bank e)

/-- The same object, seen from the whole system. -/
def worldHost (M : MemorySystem μ) (bank : Bank) : Host (World (Outside υ μ)) where
  dram w := (host M bank).dram w.rest
  setDram d w := { w with rest := (host M bank).setDram d w.rest }
  canAccept addr isWrite w :=
    let r := (host M bank).canAccept addr isWrite w.rest
    (r.1, { w with rest := r.2 })
  sendRequest addr isWrite w := { w with rest := (host M bank).sendRequest addr isWrite w.rest }
  scheduled e w := (host M bank).scheduled e w.rest
  schedule e w := { w with rest := (host M bank).schedule e w.rest }

/-- A reaction of an upstream changes only its own part of the state. -/
def embed {n : Nat} {ρ : Type} : Reaction n υ ρ → Outside υ μ → Reaction n (Outside υ μ) ρ
  | .done result u, o => .done result { o with upstream := u }
  | .request bank up pkt u next, o =>
    .request bank up pkt { o with upstream := u } fun accepted o =>
      embed (next accepted o.upstream) o

variable (c : Config) (M : MemorySystem μ) (U : Upstreams c.numUpstreams υ)

/-- The peers of the arbiter. -/
def peers : Peers c.numUpstreams (Outside υ μ) where
  sendTimingReq bank pkt o := recvTimingReq (host M bank) pkt o
  sendTimingResp bank up pkt o := embed (U.recvTimingResp bank up pkt o.upstream) o
  recvReqRetry bank up o := embed (U.recvReqRetry bank up o.upstream) o
  schedule e o := o.schedule (.arb e)

/-! ## Handlers -/

/-- `ArbRequestPort::recvTimingResp` -/
def respond (bank : Bank) (pkt : Packet) (w : World (Outside υ μ)) :
    Except Dram.Abort (Bool × World (Outside υ μ)) :=
  match recvTimingResp c (peers c M U) pkt bank w with
  | .ok w => .ok (true, w)
  | .error _ => .error .peer

/-- `dramsim3_wrapper::global_read_callback` and `global_write_callback` -/
def complete (w : World (Outside υ μ)) (t : Completion) :
    Except Dram.Abort (World (Outside υ μ)) :=
  let bank := M.getChannel t.addr
  if t.isWrite then writeComplete (worldHost M bank) t.addr w
  else readComplete (worldHost M bank) t.addr w

/-- `dramsim3_wrapper::tick` -/
def wrapperTick (w : World (Outside υ μ)) : Except Dram.Abort (World (Outside υ μ)) :=
  let r := M.clockTick w.rest.memory
  match r.1.foldlM (complete M) { w with rest := { w.rest with memory := r.2 } } with
  | .error e => .error e
  | .ok w =>
    if w.rest.queue.scheduled .wrapperTick then .ok w
    else .ok { w with rest := w.rest.schedule .wrapperTick }

/-- `Event::process` of an event that was taken from the queue. -/
def process (w : World (Outside υ μ)) : EventId → Except Dram.Abort (World (Outside υ μ))
  | .arb .arb => .ok (arbitrate c (peers c M U) w.clearArbEvent)
  | .arb .sendResponse =>
    .ok (Arbiter.sendResponse c (peers c M U) w.clearSendResponseEvent)
  | .dram bank .tick => .ok (tick (worldHost M bank) (handleReqRetry c (peers c M U) bank) w)
  | .dram bank .sendResponse => Dram.sendResponse (worldHost M bank) (respond c M U bank) w
  | .wrapperTick => wrapperTick M w

/-! ## Runs -/

/-- The event queue services its head, or an upstream acts: it makes a request, retries a response
or changes its own state. The events of the upstreams stand in the same queue, so the clock may
advance to a tick before that of the head. -/
inductive Action (n : Nat) (υ : Type)
  | serviceOne
  | request (bank : Bank) (up : Fin n) (pkt : Packet)
  | respRetry (bank : Bank) (up : Fin n)
  | upstream (u : υ)
  | advance (t : Tick)

def setQueue (q : EventQueue EventId) (w : World (Outside υ μ)) : World (Outside υ μ) :=
  { w with rest := { w.rest with queue := q } }

/-- One step; a failed assert ends the run. -/
def step (w : World (Outside υ μ)) (action : Action c.numUpstreams υ) :
    Option (World (Outside υ μ)) :=
  if w.rest.failed then none
  else match action with
    | .serviceOne =>
      match w.rest.queue.takeHead with
      | .error _ => none
      | .ok (e, q) => (process c M U (setQueue q w) e).toOption
    | .request bank up pkt => some (recvTimingReqUp c (peers c M U) pkt bank up w).2
    | .respRetry bank up => some (handleRespRetry c (peers c M U) bank up w)
    | .upstream u => some { w with rest := { w.rest with upstream := u } }
    | .advance t =>
      let q := w.rest.queue
      if q.curTick ≤ t ∧ ∀ e ∈ q.head, t ≤ q.when e then some (setQueue { q with curTick := t } w)
      else none

/-- The system before the simulation starts. -/
def start (u : υ) (m : μ) : World (Outside υ μ) := World.init (Outside.init u m)

/-! ## What a handler that returns has done -/

variable {c M U} {w w' : World (Outside υ μ)}

theorem respond_ok {bank : Bank} {pkt : Packet} {success : Bool}
    (h : respond c M U bank pkt w = .ok (success, w')) :
    success = true ∧ recvTimingResp c (peers c M U) pkt bank w = .ok w' := by
  unfold respond at h
  split at h
  · rename_i v hrecv
    cases h
    exact ⟨rfl, hrecv⟩
  · cases h

theorem wrapperTick_ok (h : wrapperTick M w = .ok w') :
    ∃ v, (M.clockTick w.rest.memory).1.foldlM (complete M)
        { w with rest := { w.rest with memory := (M.clockTick w.rest.memory).2 } } = .ok v ∧
      w' = if v.rest.queue.scheduled .wrapperTick then v
        else { v with rest := v.rest.schedule .wrapperTick } := by
  unfold wrapperTick at h
  dsimp only at h
  split at h
  · cases h
  · rename_i v hdone
    refine ⟨v, hdone, ?_⟩
    split at h
    · rename_i hpending
      cases h
      rw [if_pos hpending]
    · rename_i hfree
      cases h
      rw [if_neg hfree]

theorem step_running {action : Action c.numUpstreams υ} (h : step c M U w action = some w') :
    w.rest.failed = false := by
  unfold step at h
  split at h
  · cases h
  · rename_i hfailed
    simpa using hfailed

/-- The head of the queue was taken and processed. -/
theorem step_serviceOne (h : step c M U w .serviceOne = some w') :
    ∃ e q, w.rest.queue.takeHead = .ok (e, q) ∧ process c M U (setQueue q w) e = .ok w' := by
  have hrunning := step_running h
  unfold step at h
  rw [if_neg (by simp [hrunning])] at h
  dsimp only at h
  split at h
  · cases h
  · rename_i e q htake
    exact ⟨e, q, htake, ok_of_toOption h⟩

/-- The clock was set. -/
theorem step_advance {t : Tick} (h : step c M U w (.advance t) = some w') :
    w' = setQueue { w.rest.queue with curTick := t } w := by
  have hrunning := step_running h
  unfold step at h
  rw [if_neg (by simp [hrunning])] at h
  dsimp only at h
  split at h
  · cases h
    rfl
  · cases h

end NetSim.System
