import Mathlib.Data.Nat.Pairing
import NetSim.Arbiter.State

/-!
# The buffer of an upstream

`UpBuffer` of `src/buffer/UpBuffer.h` and `src/buffer/UpBuffer.cpp`: it sends reads at its eight
ports, each bound to the arbiter, and keeps the responses. A handler is what the buffer does from
inside a call or an event: a sequence of requests at its ports, each followed by what is done with
the answer. `sendRetryResp` of a port is called by none of them.
-/

namespace NetSim.Buffer

open Common Arbiter

/-- The ports; `UpBuffer::num_ports` is `DramArb::num_banks`, and a port is named by its bank. -/
abbrev PortId := Bank

/-- `buf_size` -/
def bufSize : Nat := 3

/-- The fields of `UpBuffer`. The event objects are members of it and hold their own `_scheduled`
flags; `name` and the number of packets created so far tell the packet objects apart. -/
structure UpBuffer where
  name : Nat
  created : Nat
  addr : Addr
  bufferData : PortId → List Packet
  bufferdataNum : PortId → Nat
  retryReq : PortId → Bool
  retryResp : PortId → Bool
  tickEvent : Bool
  sendDataRetryrespEvent : Bool

namespace UpBuffer

/-- The state that the constructor leaves. It does not set `retryResp`. -/
def init (name : Nat) (addrInit : Addr) (retryResp : PortId → Bool) : UpBuffer where
  name := name
  created := 0
  addr := addrInit
  bufferData := fun _ => []
  bufferdataNum := fun _ => 0
  retryReq := fun _ => false
  retryResp := retryResp
  tickEvent := false
  sendDataRetryrespEvent := false

/-! ## Effects on the fields -/

/-- The packet of the next call of `PacketManager::create_read_packet`. -/
def readPacket (b : UpBuffer) (addr : Addr) : Packet := ⟨Nat.pair b.name b.created, addr, false⟩

def countPacket (b : UpBuffer) : UpBuffer := { b with created := b.created + 1 }

def setRetryReq (b : UpBuffer) (port : PortId) (flag : Bool) : UpBuffer :=
  { b with retryReq := Function.update b.retryReq port flag }

/-- The address of the packets for a port after `init`. -/
def portAddr (b : UpBuffer) (port : PortId) : Addr := b.addr + BitVec.ofNat 64 (port.val * 64)

/-- Keep a response; the counters are `unsigned int`. -/
def pushData (b : UpBuffer) (port : PortId) (pkt : Packet) : UpBuffer :=
  { b with
    bufferData := Function.update b.bufferData port (b.bufferData port ++ [pkt])
    bufferdataNum := Function.update b.bufferdataNum port ((b.bufferdataNum port + 1) % 2 ^ 32) }

/-- Hand the oldest response of a port to the computation, if there is one. -/
def popData (b : UpBuffer) (port : PortId) : UpBuffer :=
  if (b.bufferData port).isEmpty then b
  else { b with
    bufferData := Function.update b.bufferData port (b.bufferData port).tail
    bufferdataNum := Function.update b.bufferdataNum port
      ((b.bufferdataNum port + (2 ^ 32 - 1)) % 2 ^ 32) }

/-! ## Handlers -/

variable {n : Nat} (up : Fin n)

/-- The loop of `UpBuffer::init` over the remaining ports. -/
def initFrom : List PortId → UpBuffer → Reaction n UpBuffer Unit
  | [], b => .done () b
  | port :: ports, b =>
    .request port up (b.readPacket b.addr) { b.countPacket with addr := b.addr + 64 }
      fun _ b => initFrom ports b

/-- `UpBuffer::init` -/
def initHandler (b : UpBuffer) : Reaction n UpBuffer Unit := initFrom up banks b

/-- The loop of `UpBuffer::sendpkt_event` over the remaining ports. -/
def sendpktFrom : List PortId → UpBuffer → Reaction n UpBuffer Unit
  | [], b => .done () b
  | port :: ports, b =>
    if b.bufferdataNum port > bufSize then sendpktFrom ports (b.setRetryReq port true)
    else
      .request port up (b.readPacket (b.portAddr port)) b.countPacket fun ok b =>
        sendpktFrom ports (if ok then b else b.setRetryReq port true)

/-- `UpBuffer::sendpkt_event` -/
def sendpktEvent (b : UpBuffer) : Reaction n UpBuffer Unit := sendpktFrom up banks b

/-- `UpBuffer::sendRetryReq` -/
def sendRetryReq (port : PortId) (b : UpBuffer) : Reaction n UpBuffer Unit :=
  .request port up (b.readPacket (b.portAddr port)) b.countPacket fun ok b =>
    .done () (b.setRetryReq port !ok)

/-- `UpBuffer::recvTimingResp`. Data that arrives schedules `tickEvent`. -/
def recvTimingResp (port : PortId) (pkt : Packet) (b : UpBuffer) : Bool × UpBuffer :=
  if b.bufferdataNum port > bufSize then
    (false, { b with retryResp := Function.update b.retryResp port true })
  else
    let b := b.pushData port pkt
    (true, if b.tickEvent then b else { b with tickEvent := true })

/-- `UpBuffer::send_data_2cal` -/
def sendData2cal (b : UpBuffer) : UpBuffer :=
  let b := banks.foldl popData b
  let hasPending := banks.any fun port => !(b.bufferData port).isEmpty
  if !b.sendDataRetryrespEvent && hasPending then { b with sendDataRetryrespEvent := true } else b

end UpBuffer

end NetSim.Buffer
