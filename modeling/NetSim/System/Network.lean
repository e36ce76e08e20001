import NetSim.Buffer.UpBuffer
import NetSim.Dram.Wrapper
import NetSim.System.Component

/-!
# The network of `main`

`src/main.cpp`: several `UpBuffer` objects, port `i` of each bound to bank `i` of the arbiter, and
bank `i` of the arbiter bound to the memory object that is registered for channel `i`. `main` first
calls `init` of every object and then services the event queue. An event of a buffer may be serviced
whenever it is scheduled; the clock may advance to its tick.

Every run of the network is a run of the memory system with the buffers as its upstreams
(`reach_system`).
-/

namespace NetSim.System

open Common Library Event Arbiter Dram Buffer

/-- The buffers, one for each upstream. -/
abbrev Buffers (n : Nat) := Fin n → UpBuffer

/-- What the buffer `up` does, seen from all buffers. -/
def lift {n : Nat} {ρ : Type} (up : Fin n) :
    Reaction n UpBuffer ρ → Buffers n → Reaction n (Buffers n) ρ
  | .done result b, u => .done result (Function.update u up b)
  | .request bank target pkt b next, u =>
    .request bank target pkt (Function.update u up b) fun accepted u =>
      lift up (next accepted (u up)) u

/-- The buffers behind the response ports of the arbiter. -/
def upBuffers {n : Nat} : Upstreams n (Buffers n) where
  recvTimingResp bank up pkt u :=
    if h : up < n then
      let r := (u ⟨up, h⟩).recvTimingResp bank pkt
      .done r.1 (Function.update u ⟨up, h⟩ r.2)
    else .done false u
  recvReqRetry bank up u :=
    if h : up < n then lift ⟨up, h⟩ ((u ⟨up, h⟩).sendRetryReq ⟨up, h⟩ bank) u else .done () u

/-- The events of the buffer `up`. `EventQueue::serviceOne` clears the flag of an event before it is
processed. -/
def serviceTick {n : Nat} (up : Fin n) (b : UpBuffer) : Reaction n UpBuffer Unit :=
  UpBuffer.sendpktEvent up { b with tickEvent := false }

def serviceSendData {n : Nat} (b : UpBuffer) : Reaction n UpBuffer Unit :=
  .done () (UpBuffer.sendData2cal { b with sendDataRetryrespEvent := false })

/-- The devices of `HBM2_4Gb_x128.ini`, with the columns doubled by `InitDRAMParams`. -/
def hbm2 : Geometry where
  bankgroups := 4
  banksPerGroup := 4
  rows := 16384
  columns := 128
  deviceWidth := 128
  bl := 4
  channelSize := 512
  channels := 8
  busWidth := 128
  bl_le := Geometry.hbm2Large.bl_le

/-- The mapping `rorabgbacoch` of the same file: the channel is in the bits from 6 to 8. -/
def hbm2Mapping : AddressMapping where
  shiftBits := 6
  chPos := 0
  chBits := 3
  shiftBits_lt := by decide
  chPos_lt := by decide
  channels_le := by decide

theorem hbm2_setAddressMapping :
    hbm2.setAddressMapping [.ro, .ra, .bg, .ba, .co, .ch] = some hbm2Mapping := by
  decide +kernel

/-- The channel that the wrapper computes for a completion. -/
def dispatch (a : Addr) : Bank := hbm2Mapping.getChannel ((a.setWidth 32).setWidth 64)

/-- A wrapper with this mapping invokes the callback of that channel. -/
theorem globalCallback_dispatch {σ : Type} {W : Wrapper σ} (hW : W.mapping = hbm2Mapping)
    (callbacks : Bank → Option (Addr → σ → σ)) (a : Addr) (s : σ) :
    W.globalCallback callbacks a s = invoke (callbacks (dispatch a)) a s := by
  unfold Wrapper.globalCallback Wrapper.getChannel dispatch
  rw [hW]

/-- A memory model with this mapping. -/
def withMapping {μ : Type} (M : MemorySystem μ) : MemorySystem μ :=
  { M with getChannel := dispatch }

/-- The objects, and the buffers whose `init` is still to be called. -/
structure Network (n : Nat) (μ : Type) where
  world : World (Outside (Buffers n) μ)
  toInit : List (Fin n)

/-- `init` of the next buffer, an event of the arbiter, of a memory object or of the wrapper, an
event of a buffer, or the passing of time. -/
inductive NetAction (n : Nat)
  | init
  | serviceOne
  | tick (up : Fin n)
  | sendData (up : Fin n)
  | advance (t : Tick)

section Model

variable {μ : Type} (c : Config) (M : MemorySystem μ)

/-- Run a handler of the buffer `up`. -/
def runHandler (up : Fin c.numUpstreams)
    (handler : UpBuffer → Reaction c.numUpstreams UpBuffer Unit)
    (w : World (Outside (Buffers c.numUpstreams) μ)) :
    World (Outside (Buffers c.numUpstreams) μ) :=
  let u := w.rest.upstream
  ((embed (lift up (handler (u up)) u) w.rest).run c (peers c M upBuffers) w).2

/-- A step after all objects are initialised. -/
def handle (w : World (Outside (Buffers c.numUpstreams) μ)) :
    NetAction c.numUpstreams → Option (World (Outside (Buffers c.numUpstreams) μ))
  | .init => none
  | .serviceOne => step c M upBuffers w .serviceOne
  | .tick up =>
    if (w.rest.upstream up).tickEvent then
      some (runHandler c M up (serviceTick up) w)
    else none
  | .sendData up =>
    if (w.rest.upstream up).sendDataRetryrespEvent then
      some (runHandler c M up serviceSendData w)
    else none
  | .advance t => step c M upBuffers w (.advance t)

/-- One step; a failed assert ends the run. -/
def Network.step (s : Network c.numUpstreams μ) (action : NetAction c.numUpstreams) :
    Option (Network c.numUpstreams μ) :=
  if s.world.rest.failed then none
  else match s.toInit with
    | up :: toInit =>
      match action with
      | .init => some ⟨runHandler c M up (UpBuffer.initHandler up) s.world, toInit⟩
      | _ => none
    | [] => (handle c M s.world action).map fun w => ⟨w, []⟩

/-- All objects are constructed. -/
def Network.start (addrInit : Fin c.numUpstreams → Addr)
    (retryResp : Fin c.numUpstreams → PortId → Bool) (m : μ) : Network c.numUpstreams μ where
  world := System.start (fun up => .init up (addrInit up) (retryResp up)) m
  toInit := List.finRange c.numUpstreams

end Model

/-! ## Runs of the network are runs of the memory system -/

section Runs

variable {υ μ : Type} {c : Config} {M : MemorySystem μ}

/-- The runs of the memory system that start in `w`. -/
abbrev SystemRun (c : Config) (M : MemorySystem μ) (U : Upstreams c.numUpstreams υ)
    (w w' : World (Outside υ μ)) : Prop :=
  Reach (Steps (step c M U)) Free w w'

/-- What an upstream does is a sequence of its actions. -/
theorem embed_run_systemRun {U : Upstreams c.numUpstreams υ} {ρ : Type}
    (r : Reaction c.numUpstreams υ ρ) {v w : World (Outside υ μ)} (hv : SystemRun c M U v w)
    (hlinked : Linked w) (hrunning : w.rest.failed = false) :
    SystemRun c M U v ((embed r w.rest).run c (peers c M U) w).2 := by
  induction r generalizing w with
  | done result u => exact .next (.upstream u) hv trivial (if_neg (by simp [hrunning]))
  | request bank up pkt u next ih =>
    let w₁ : World (Outside υ μ) := { w with rest := { w.rest with upstream := u } }
    have hrun₁ : SystemRun c M U v w₁ :=
      .next (.upstream u) hv trivial (if_neg (by simp [hrunning]))
    have hlinked₁ : Linked w₁ := ⟨hlinked.sound, hlinked.arb, hlinked.sendResponse⟩
    obtain ⟨hlinked₂, hfailed₂⟩ :=
      recvTimingReqUp_keeps (c := c) (M := M) (U := U) pkt bank up w₁ hlinked₁
    have hrun₂ : SystemRun c M U v (recvTimingReqUp c (peers c M U) pkt bank up w₁).2 :=
      .next (.request bank up pkt) hrun₁ trivial (if_neg (by simp [w₁, hrunning]))
    exact ih _ _ hrun₂ hlinked₂ (hfailed₂.trans hrunning)

/-- What a step of the network does. -/
inductive Network.Does (c : Config) (M : MemorySystem μ) (s : Network c.numUpstreams μ) :
    Network c.numUpstreams μ → Prop
  | init {up : Fin c.numUpstreams} {toInit : List (Fin c.numUpstreams)}
      (htodo : s.toInit = up :: toInit) :
      Does c M s ⟨runHandler c M up (UpBuffer.initHandler up) s.world, toInit⟩
  | tick (up : Fin c.numUpstreams) : Does c M s ⟨runHandler c M up (serviceTick up) s.world, []⟩
  | sendData (up : Fin c.numUpstreams) :
      Does c M s ⟨runHandler c M up serviceSendData s.world, []⟩
  | serviceOne {w : World (Outside (Buffers c.numUpstreams) μ)}
      (hstep : System.step c M upBuffers s.world .serviceOne = some w) : Does c M s ⟨w, []⟩
  | advance {t : Tick} {w : World (Outside (Buffers c.numUpstreams) μ)}
      (hstep : System.step c M upBuffers s.world (.advance t) = some w) : Does c M s ⟨w, []⟩

variable {s s' : Network c.numUpstreams μ}

theorem Network.step_does {action : NetAction c.numUpstreams}
    (h : Network.step c M s action = some s') :
    s.world.rest.failed = false ∧ Network.Does c M s s' := by
  unfold Network.step at h
  split at h
  · cases h
  · rename_i hfailed
    refine ⟨by simpa using hfailed, ?_⟩
    split at h
    · rename_i up toInit htodo
      cases action with
      | init =>
        cases h
        exact .init htodo
      | serviceOne | tick | sendData | advance => cases h
    · obtain ⟨w, hw, rfl⟩ := Option.map_eq_some_iff.mp h
      cases action with
      | init => cases hw
      | serviceOne => exact .serviceOne hw
      | tick up =>
        simp only [handle] at hw
        split at hw
        · cases hw
          exact .tick up
        · cases hw
      | sendData up =>
        simp only [handle] at hw
        split at hw
        · cases hw
          exact .sendData up
        · cases hw
      | advance t => exact .advance hw

theorem runHandler_systemRun (up : Fin c.numUpstreams)
    (handler : UpBuffer → Reaction c.numUpstreams UpBuffer Unit)
    {v w : World (Outside (Buffers c.numUpstreams) μ)} (hv : SystemRun c M upBuffers v w)
    (hlinked : Linked w) (hrunning : w.rest.failed = false) :
    SystemRun c M upBuffers v (runHandler c M up handler w) :=
  embed_run_systemRun _ hv hlinked hrunning

/-- A run of the network is a run of the memory system. -/
theorem Network.reach_system {addrInit : Fin c.numUpstreams → Addr}
    {retryResp : Fin c.numUpstreams → PortId → Bool} {m : μ}
    (h : Reach (Steps (Network.step c M)) Free (.start c addrInit retryResp m) s) :
    SystemRun c M upBuffers (Network.start c addrInit retryResp m).world s.world := by
  refine h.invariant
    (fun s => SystemRun c M upBuffers (Network.start c addrInit retryResp m).world s.world)
    .start ?_
  intro s action s' _ hs _ hstep
  obtain ⟨hrunning, hdoes⟩ := Network.step_does hstep
  have hlinked : Linked s.world := hs.invariant Linked (start_linked _ _).1
    fun _ _ _ _ hw _ hstep => (step_failed hw hstep).1
  cases hdoes with
  | @init up toInit htodo => exact runHandler_systemRun up _ hs hlinked hrunning
  | tick up => exact runHandler_systemRun up _ hs hlinked hrunning
  | sendData up => exact runHandler_systemRun up _ hs hlinked hrunning
  | serviceOne hsystem => exact .next .serviceOne hs trivial hsystem
  | @advance t w hsystem => exact .next (.advance t) hs trivial hsystem

end Runs

end NetSim.System
