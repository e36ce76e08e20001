import NetSim.Common.Packet
import NetSim.Library.QueueMap
import NetSim.Library.Table

/-!
# State of the arbiter

The fields of `DramArb` (`src/dram/dram_arb.h`), the log of everything that happens at its
ports, and the peers its ports are bound to. The arbiter stands between several upstreams and
one memory object for each bank: `responsePorts[bank][upstream]` accepts requests and sends
responses, `requestPorts[bank]` sends requests and receives responses.

The peers are a parameter: everything outside the arbiter is one state of an arbitrary type, and
the port calls that leave the arbiter are arbitrary functions of it. A peer cannot touch the
arbiter except by calling it: an upstream may make requests from inside `recvTimingResp` and
`recvReqRetry`.
-/

namespace NetSim.Arbiter

open Common Library

/-- `DramArb::num_banks` -/
def numBanks : Nat := 8

/-- `DramArb::num_up` -/
def numUp : Nat := 5

instance : NeZero numUp := ⟨by decide⟩

abbrev Bank := Fin numBanks

instance : NeZero numBanks := ⟨by decide⟩

def banks : List Bank := List.finRange numBanks

/-- The arguments of the constructor. `buf_size` is an `int`, and the flags of the upstreams have
room for `num_up` of them. -/
structure Config where
  bufSize : Int
  numUpstreams : Nat
  bufSize_int : -2 ^ 31 ≤ bufSize ∧ bufSize < 2 ^ 31
  numUpstreams_pos : 1 ≤ numUpstreams
  numUpstreams_le : numUpstreams ≤ numUp

instance (c : Config) : NeZero c.numUpstreams := ⟨by have := c.numUpstreams_pos; omega⟩

/-- A small arbiter with `extra + 1` upstreams. -/
def Config.small (size : Fin 16) (extra : Fin numUp) : Config where
  bufSize := size.val
  numUpstreams := extra + 1
  bufSize_int := by omega
  numUpstreams_pos := by omega
  numUpstreams_le := by omega

/-- `buf_size` where it is compared with a `size_t`: the conversion wraps around. -/
def Config.limit (c : Config) : Nat := (c.bufSize % 2 ^ 64).toNat

theorem Config.limit_of_nonneg {c : Config} (h : 0 ≤ c.bufSize) :
    (c.limit : Int) = c.bufSize := by
  have hint := c.bufSize_int
  unfold Config.limit
  rw [Int.emod_eq_of_lt h (by omega), Int.toNat_of_nonneg h]

/-- The two kinds of requests, each with its own input buffers and round-robin pointers. -/
inductive Kind
  | read
  | write
deriving DecidableEq, Repr

/-- The fields of `DramArb`. The event objects are members of it and hold their own
`_scheduled` flags. -/
structure DramArb where
  outstandingReads : Bank → QueueMap Addr Packet
  outstandingUpstream : Bank → QueueMap Addr Nat
  nbrOutstandingReads : Bank → Nat
  inBufs : Kind → Bank → Nat → List Packet
  responseQueue : Bank → List (Packet × Nat)
  retryReq : Bank → Nat → Bool
  retryResp : Bank → Nat → Bool
  rrIdx : Kind → Bank → Nat
  arbEvent : Bool
  sendResponseEvent : Bool

namespace DramArb

@[simp] abbrev readInBufs (a : DramArb) : Bank → Nat → List Packet := a.inBufs .read

@[simp] abbrev writeInBufs (a : DramArb) : Bank → Nat → List Packet := a.inBufs .write

abbrev rrReadIdx (a : DramArb) : Bank → Nat := a.rrIdx .read

abbrev rrWriteIdx (a : DramArb) : Bank → Nat := a.rrIdx .write

/-- The state that the constructor leaves. -/
def init : DramArb where
  outstandingReads := fun _ => ∅
  outstandingUpstream := fun _ => ∅
  nbrOutstandingReads := fun _ => 0
  inBufs := fun _ _ _ => []
  responseQueue := fun _ => []
  retryReq := fun _ _ => false
  retryResp := fun _ _ => false
  rrIdx := fun _ _ => 0
  arbEvent := false
  sendResponseEvent := false

end DramArb

/-- The two events of the arbiter. -/
inductive ArbEvent
  | arb
  | sendResponse
deriving DecidableEq, Repr

/-- What happens at the ports of the arbiter, with the answers. -/
inductive PortEvent
  /-- `recvTimingReqUp(pkt, bank, up)` returned `accepted`. -/
  | request (bank : Bank) (up : Nat) (pkt : Packet) (accepted : Bool)
  /-- `requestPorts[bank].sendTimingReq(pkt)` returned `accepted`. -/
  | sendReq (bank : Bank) (pkt : Packet) (accepted : Bool)
  /-- `handleReqRetry(bank)` was called. -/
  | reqRetry (bank : Bank)
  /-- `recvTimingResp(pkt, bank)` was called. -/
  | response (bank : Bank) (pkt : Packet)
  /-- `responsePorts[bank][up].sendTimingResp(pkt)` returned `accepted`. -/
  | sendResp (bank : Bank) (up : Nat) (pkt : Packet) (accepted : Bool)
  /-- `handleRespRetry(bank, up)` was called. -/
  | respRetry (bank : Bank) (up : Nat)
  /-- `responsePorts[bank][up].sendRetryReq()` was called. -/
  | retryReq (bank : Bank) (up : Nat)
deriving DecidableEq, Repr

/-- The log of the ports, latest entry first. -/
abbrev Log := List PortEvent

/-- The arbiter and what has happened at its ports. -/
structure Core where
  arb : DramArb
  log : Log

/-- The arbiter, its log and everything else. -/
structure World (δ : Type) extends Core where
  rest : δ

/-- What an upstream does from inside a call: any finite sequence of requests at the response
ports, each chosen from the answers so far, and then the result of the call. -/
inductive Reaction (n : Nat) (δ ρ : Type)
  | done (result : ρ) (rest : δ)
  | request (bank : Bank) (up : Fin n) (pkt : Packet) (rest : δ)
      (next : Bool → δ → Reaction n δ ρ)

/-- The peers that the ports of an arbiter with `n` upstreams are bound to, and the event
queue. -/
structure Peers (n : Nat) (δ : Type) where
  sendTimingReq : Bank → Packet → δ → Bool × δ
  sendTimingResp : Bank → Nat → Packet → δ → Reaction n δ Bool
  recvReqRetry : Bank → Nat → δ → Reaction n δ Unit
  schedule : ArbEvent → δ → δ

/-- Peers that always answer the same, and do nothing when they get a retry. -/
def Peers.constant {n : Nat} (takesReq takesResp : Bool) : Peers n Unit where
  sendTimingReq := fun _ _ d => (takesReq, d)
  sendTimingResp := fun _ _ _ d => .done takesResp d
  recvReqRetry := fun _ _ d => .done () d
  schedule := fun _ d => d

end NetSim.Arbiter
