import NetSim.Arbiter.PortNames
import NetSim.Common.Port
import NetSim.System.Main

/-!
# The wiring of `main`

Before the simulation starts, `main` looks up the ports of all objects by name and binds them: port
`bank` of every buffer to the response port of that bank and upstream of the arbiter, and the
request port of every bank to the port of its memory object. A call at a port then goes to the
object behind the pointer of the port.

No lookup throws, no port is bound twice, and the objects that the calls of the arbiter reach are
those that `mainPeers` names.
-/

namespace NetSim.System

open Common Library Arbiter Buffer Dram

/-- The request ports of all objects. -/
inductive Requester (n : Nat)
  /-- `requestPorts[port]` of the buffer `up` -/
  | buffer (up : Fin n) (port : PortId)
  /-- `requestPorts[bank]` of the arbiter -/
  | arb (bank : Bank)
deriving DecidableEq, Repr

/-- The response ports of all objects. -/
inductive Responder (n : Nat)
  /-- `responsePorts[bank][up]` of the arbiter -/
  | arb (bank : Bank) (up : Fin n)
  /-- `port` of the memory object of the bank -/
  | memory (bank : Bank)
deriving DecidableEq, Repr

section Lookup

variable {n : Nat}

theorem toNat_lt_numBanks {bank : Int} (h : 0 ≤ bank ∧ bank < numBanks) :
    bank.toNat < numBanks := by
  omega

/-- `UpBuffer::getPort` of the buffer `up` -/
def bufferGetPort (up : Fin n) (ifName : List Char) :
    Except PortError (PortRef (Requester n) (Responder n)) :=
  if "buf_side".toList.isPrefixOf ifName then
    match stoi (substr ifName 8 none) with
    | .error e => .error (.stoi e)
    | .ok bank =>
      if h : 0 ≤ bank ∧ bank < numBanks then
        .ok (.request (.buffer up ⟨bank.toNat, toNat_lt_numBanks h⟩))
      else .error (.runtimeError "No such port".toList)
  else .error (.runtimeError "No such port".toList)

/-- `DRAMsim3::getPort` of the memory object of a bank -/
def memoryGetPort (bank : Bank) (ifName : List Char) :
    Except PortError (PortRef (Requester n) (Responder n)) :=
  if ifName = "mem_side".toList then .ok (.response (some (.memory bank)))
  else .error (.runtimeError "No such port".toList)

/-- The port object of the arbiter; the tables have a row for each bank and an entry for each
upstream. -/
def ArbPort.toRef : ArbPort → Option (PortRef (Requester n) (Responder n))
  | .response bank up =>
    if h : bank < numBanks ∧ up < n then some (.response (some (.arb ⟨bank, h.1⟩ ⟨up, h.2⟩)))
    else none
  | .request bank => if h : bank < numBanks then some (.request (.arb ⟨bank, h⟩)) else none

/-- `DramArb::getPort`, called without an index -/
def arbGetPort (n : Nat) (ifName : List Char) : Option (PortRef (Requester n) (Responder n)) :=
  (getPort (.ofNat n) ifName (-1)).toOption.bind ArbPort.toRef

end Lookup

section Binding

variable {n : Nat}

/-- `Port::bind` -/
def bindPort (port peer : PortRef (Requester n) (Responder n))
    (p : Ports (Requester n) (Responder n)) : Option (Ports (Requester n) (Responder n)) :=
  match port with
  | .request r => p.call (.bind r peer)
  | .response s => p.call (.responseBind s peer)

/-- `bindPorts` of `main` -/
def bindPorts (port₁ port₂ : PortRef (Requester n) (Responder n))
    (p : Ports (Requester n) (Responder n)) : Option (Ports (Requester n) (Responder n)) := do
  let p ← bindPort port₁ port₂ p
  bindPort port₂ port₁ p

/-- The names of the ports of a bank, without those of the arbiter's response ports. -/
def bufSideName (bank : Bank) : List Char := "buf_side".toList ++ Nat.toDigits 10 bank

def requestName (bank : Bank) : List Char := "request".toList ++ Nat.toDigits 10 bank

/-- The port of a bank of the buffer `up` is bound. An exception of `getPort`, and a call on a null
port, is `none`. -/
def wireBuffer (bank : Bank) (p : Ports (Requester n) (Responder n)) (up : Fin n) :
    Option (Ports (Requester n) (Responder n)) := do
  let port₁ ← (bufferGetPort up (bufSideName bank)).toOption
  let port₂ ← arbGetPort n (responseName bank up)
  bindPorts port₁ port₂ p

/-- The body of the loop of `main` over the banks, which has a line for each buffer. -/
def wireBank (p : Ports (Requester n) (Responder n)) (bank : Bank) :
    Option (Ports (Requester n) (Responder n)) := do
  let p ← (List.finRange n).foldlM (wireBuffer bank) p
  let port₁ ← arbGetPort n (requestName bank)
  let port₂ ← (memoryGetPort bank "mem_side".toList).toOption
  bindPorts port₁ port₂ p

/-- The ports after the loop. -/
def wire (n : Nat) : Option (Ports (Requester n) (Responder n)) := banks.foldlM wireBank .init

end Binding

/-! ## The lookups succeed -/

variable {n : Nat}

theorem bufferGetPort_bufSideName (up : Fin n) (bank : Bank) :
    bufferGetPort up (bufSideName bank) = .ok (.request (.buffer up bank)) := by
  have hread : stoi (substr (bufSideName bank) 8 none) = .ok (bank.val : Int) :=
    stoi_eq_ok_iff.mpr ⟨reads_toDigits bank, isInt_bank bank.isLt⟩
  have hfront : "buf_side".toList.isPrefixOf (bufSideName bank) = true :=
    List.isPrefixOf_iff_prefix.mpr (List.prefix_append _ _)
  have hrange : 0 ≤ (bank.val : Int) ∧ (bank.val : Int) < numBanks := by omega
  rw [bufferGetPort, if_pos hfront, hread]
  exact dif_pos hrange

theorem arbGetPort_requestName (bank : Bank) :
    arbGetPort n (requestName bank) = some (.request (.arb bank)) := by
  have hport : getPort (.ofNat n) (requestName bank) (-1) = .ok (.request bank) :=
    getPort_of_requestName ⟨bank.isLt, rfl⟩
  rw [arbGetPort, hport]
  exact dif_pos bank.isLt

theorem arbGetPort_responseName (hn : n < 2 ^ 31) (bank : Bank) (up : Fin n) :
    arbGetPort n (responseName bank up) = some (.response (some (.arb bank up))) := by
  have hup : (up.val : Int) < (Int32.ofNat n).toInt := by
    rw [Int32.toInt_ofNat_of_lt hn]
    omega
  have hport : getPort (.ofNat n) (responseName bank up) (-1) = .ok (.response bank up) :=
    getPort_of_responseName ⟨bank.isLt, hup, .inl rfl⟩
  rw [arbGetPort, hport]
  exact dif_pos ⟨bank.isLt, up.isLt⟩

/-! ## The bindings -/

/-- The response port that `main` binds a request port to. -/
def peerOf : Requester n → Responder n
  | .buffer up port => .arb port up
  | .arb bank => .memory bank

theorem peerOf_injective : Function.Injective (peerOf : Requester n → Responder n) := by
  intro r r' h
  cases r with
  | buffer up port =>
    cases r' with
    | buffer up' port' =>
      cases h
      rfl
    | arb bank => cases h
  | arb bank =>
    cases r' with
    | buffer up port => cases h
    | arb bank' =>
      cases h
      rfl

/-- The request ports that are bound in an iteration. -/
def bankPorts (n : Nat) (bank : Bank) : List (Requester n) :=
  (List.finRange n).map (.buffer · bank) ++ [.arb bank]

variable {rs : List (Requester n)} {p : Ports (Requester n) (Responder n)}

theorem wireBuffer_bound (hn : n < 2 ^ 31) (h : p.BoundAlong peerOf rs) (bank : Bank)
    (up : Fin n) :
    ∃ p', wireBuffer bank p up = some p' ∧ p'.BoundAlong peerOf (rs ++ [.buffer up bank]) := by
  rw [wireBuffer, bufferGetPort_bufSideName, arbGetPort_responseName hn]
  -- `bind` of the response port does nothing
  exact h.bind peerOf_injective (.buffer up bank)

theorem wireBank_bound (hn : n < 2 ^ 31) (h : p.BoundAlong peerOf rs) (bank : Bank) :
    ∃ p', wireBank p bank = some p' ∧ p'.BoundAlong peerOf (rs ++ bankPorts n bank) := by
  obtain ⟨p₁, hloop, h₁⟩ : ∃ p₁, (List.finRange n).foldlM (wireBuffer bank) p = some p₁ ∧
      p₁.BoundAlong peerOf (rs ++ (List.finRange n).map (.buffer · bank)) := by
    refine foldlM_returns
      (fun done => Ports.BoundAlong peerOf (rs ++ done.map (.buffer · bank))) ?_ (by simpa using h)
    intro done p up hp
    rw [List.map_append, ← List.append_assoc]
    exact wireBuffer_bound hn hp bank up
  obtain ⟨p₂, hbind, h₂⟩ := h₁.bind peerOf_injective (.arb bank)
  refine ⟨p₂, ?_, ?_⟩
  · rw [wireBank, hloop, arbGetPort_requestName]
    exact hbind
  · rw [bankPorts, ← List.append_assoc]
    exact h₂

/-- Every request port is bound in the iteration of its bank. -/
theorem mem_bankPorts (r : Requester n) : r ∈ banks.flatMap (bankPorts n) := by
  rw [List.mem_flatMap]
  cases r with
  | buffer up port => exact ⟨port, List.mem_finRange port, by simp [bankPorts]⟩
  | arb bank => exact ⟨bank, List.mem_finRange bank, by simp [bankPorts]⟩

/-- The pointers of the ports lead from every object to the one that `main` connects it with. -/
structure Routes (p : Ports (Requester n) (Responder n)) : Prop where
  buffer : ∀ up port, p.Paired (.buffer up port) (.arb port up)
  memory : ∀ bank, p.Paired (.arb bank) (.memory bank)

/-- **Wiring.** No lookup of `main` throws. Its bindings are one to one, and no port of an object is
left out. -/
theorem main_wiring (hn : n < 2 ^ 31) :
    ∃ p, wire n = some p ∧ p.OneToOne ∧ Routes p ∧ (∀ r, (p.request r).connected = true) ∧
      ∀ s, (p.response (some s)).connected = true := by
  obtain ⟨p, hwire, h⟩ : ∃ p, wire n = some p ∧
      p.BoundAlong peerOf (banks.flatMap (bankPorts n)) := by
    refine foldlM_returns (fun done => Ports.BoundAlong peerOf (done.flatMap (bankPorts n))) ?_
      (Ports.init_boundAlong peerOf)
    intro done p bank hp
    rw [List.flatMap_append, List.flatMap_singleton]
    exact wireBank_bound hn hp bank
  have hpaired : ∀ r, p.Paired r (peerOf r) := fun r =>
    (h.paired_iff r (peerOf r)).mpr ⟨mem_bankPorts r, rfl⟩
  refine ⟨p, hwire, h.oneToOne, ⟨fun up port => hpaired (.buffer up port),
    fun bank => hpaired (.arb bank)⟩, fun r => ?_, fun s => ?_⟩
  · exact (h.oneToOne.request r).mpr ⟨_, hpaired r⟩
  · rw [h.oneToOne.response]
    cases s with
    | arb bank up => exact ⟨_, hpaired (.buffer up bank)⟩
    | memory bank => exact ⟨_, hpaired (.arb bank)⟩

/-! ## Calls at the ports -/

section Calls

variable {μ : Type} (M : MemorySystem μ) (p : Ports (Requester n) (Responder n))

/-- `sendTimingReq` at `requestPorts[bank]` of the arbiter. A call that does not reach a memory
object is `none`. -/
def portSendTimingReq (bank : Bank) (pkt : Packet) (plant : Plant n μ) :
    Option (Bool × Plant n μ) :=
  match (p.request (.arb bank)).responsePort with
  | some (.memory bank) => some (recvTimingReq (plantHost M bank) pkt plant)
  | some (.arb _ _) | none => none

/-- `sendTimingResp` at `responsePorts[bank][up]`. A call that does not reach a buffer is `none`. -/
def portSendTimingResp (bank : Bank) (up : Fin n) (pkt : Packet) (plant : Plant n μ) :
    Option (Reaction n (Plant n μ) Bool) :=
  match (p.response (some (.arb bank up))).requestPort with
  | some (.buffer up port) =>
    let r := (plant.buffers up).recvTimingResp port pkt
    some (.done r.1 (plant.setBuffer up r.2))
  | some (.arb _) | none => none

/-- `sendRetryReq` at `responsePorts[bank][up]` -/
def portSendRetryReq (bank : Bank) (up : Fin n) (plant : Plant n μ) :
    Option (Reaction n (Plant n μ) Unit) :=
  match (p.response (some (.arb bank up))).requestPort with
  | some (.buffer up port) => some (plant.react up ((plant.buffers up).sendRetryReq up port))
  | some (.arb _) | none => none

end Calls

/-- Through the ports of `main`, the arbiter reaches the peers of `mainPeers`. -/
theorem Routes.peers {μ : Type} {c : Config} (M : MemorySystem μ)
    {p : Ports (Requester c.numUpstreams) (Responder c.numUpstreams)} (h : Routes p) (bank : Bank)
    (up : Fin c.numUpstreams) (pkt : Packet) (plant : Plant c.numUpstreams μ) :
    portSendTimingReq M p bank pkt plant = some ((mainPeers c M).sendTimingReq bank pkt plant) ∧
      portSendTimingResp p bank up pkt plant =
        some ((mainPeers c M).sendTimingResp bank up pkt plant) ∧
      portSendRetryReq p bank up plant = some ((mainPeers c M).recvReqRetry bank up plant) := by
  have hmemory : (p.request (.arb bank)).responsePort = some (.memory bank) := (h.memory bank).1
  have hbuffer : (p.response (some (.arb bank up))).requestPort = some (.buffer up bank) :=
    (h.buffer up bank).2
  refine ⟨?_, ?_, ?_⟩
  · rw [portSendTimingReq, hmemory]
    rfl
  · rw [portSendTimingResp, hbuffer]
    simp [mainPeers]
  · rw [portSendRetryReq, hbuffer]
    simp [mainPeers]

/-- **The ports of `main` lead where the model says.** The bindings of `main` succeed and are one to
one, and every call of the arbiter at one of its ports is the call of the peer in the model,
whatever the memory model is. -/
theorem main_calls_reach_peers {μ : Type} (c : Config) (M : MemorySystem μ) :
    ∃ p, wire c.numUpstreams = some p ∧ p.OneToOne ∧
      ∀ bank up (pkt : Packet) (plant : Plant c.numUpstreams μ),
        portSendTimingReq M p bank pkt plant = some ((mainPeers c M).sendTimingReq bank pkt plant) ∧
        portSendTimingResp p bank up pkt plant =
          some ((mainPeers c M).sendTimingResp bank up pkt plant) ∧
        portSendRetryReq p bank up plant = some ((mainPeers c M).recvReqRetry bank up plant) := by
  have hle : c.numUpstreams ≤ 5 := c.numUpstreams_le
  obtain ⟨p, hwire, hone, hroutes, -, -⟩ := main_wiring (n := c.numUpstreams) (by omega)
  exact ⟨p, hwire, hone, fun bank up pkt plant => hroutes.peers M bank up pkt plant⟩

end NetSim.System
