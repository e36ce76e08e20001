import Mathlib.Data.BitVec

/-!
# Packets

`DataPacket` of `src/common/packet.h`, handled everywhere through `PacketPtr`. A pointer is its
object's identity together with the fields that the components read; the address of a packet
does not change while it is in flight. Size and data are carried along and never read.
-/

namespace NetSim.Common

/-- `addr_t` -/
abbrev Addr := BitVec 64

/-- A `PacketPtr`: the object and the fields that are read through it. -/
structure Packet where
  id : Nat
  addr : Addr
  isWrite : Bool
deriving DecidableEq, Repr

def Packet.isRead (pkt : Packet) : Bool := !pkt.isWrite

@[simp] theorem Packet.isWrite_eq (pkt : Packet) : pkt.isWrite = !pkt.isRead := by
  simp [Packet.isRead]

end NetSim.Common
