import NetSim.Arbiter.State

/-!
# Handlers of the arbiter

The member functions of `DramArb` (`src/dram/dram_arb.cpp`), in the order of the source. Each
takes the world before the call to the world after it. Port calls append to the log and are
answered by the peers; `schedule` of the event queue is called only for an event that is not
scheduled.
-/

namespace NetSim.Arbiter

open Common Library

variable {δ : Type}

/-! ## Effects on the fields -/

namespace DramArb

/-- Append to the input buffer of `(bank, up)`. -/
def pushInBuf (a : DramArb) (kind : Kind) (bank : Bank) (up : Nat) (pkt : Packet) : DramArb :=
  { a with
    inBufs := Function.update a.inBufs kind
      (set2 (a.inBufs kind) bank up (a.inBufs kind bank up ++ [pkt])) }

/-- Remove the front of the input buffer of `(bank, up)` and move the round-robin pointer
behind `up`. -/
def popInBuf (a : DramArb) (c : Config) (kind : Kind) (bank : Bank) (up : Nat) : DramArb :=
  { a with
    inBufs := Function.update a.inBufs kind
      (set2 (a.inBufs kind) bank up (a.inBufs kind bank up).tail)
    rrIdx := Function.update a.rrIdx kind
      (Function.update (a.rrIdx kind) bank ((up + 1) % c.numUpstreams)) }

theorem pushInBuf_inBufs (a : DramArb) (kind k : Kind) (bank b : Bank) (up u : Nat)
    (pkt : Packet) :
    (a.pushInBuf kind bank up pkt).inBufs k b u =
      if k = kind ∧ b = bank ∧ u = up then a.inBufs k b u ++ [pkt] else a.inBufs k b u := by
  by_cases hk : k = kind
  · subst hk
    by_cases hbu : b = bank ∧ u = up
    · obtain ⟨rfl, rfl⟩ := hbu
      simp [pushInBuf]
    · simp [pushInBuf, set2_of_ne hbu, hbu]
  · simp [pushInBuf, hk]

theorem popInBuf_inBufs (a : DramArb) (c : Config) (kind k : Kind) (bank b : Bank) (up u : Nat) :
    (a.popInBuf c kind bank up).inBufs k b u =
      if k = kind ∧ b = bank ∧ u = up then (a.inBufs k b u).tail else a.inBufs k b u := by
  by_cases hk : k = kind
  · subst hk
    by_cases hbu : b = bank ∧ u = up
    · obtain ⟨rfl, rfl⟩ := hbu
      simp [popInBuf]
    · simp [popInBuf, set2_of_ne hbu, hbu]
  · simp [popInBuf, hk]

theorem mem_pushInBuf {a : DramArb} {kind k : Kind} {bank b : Bank} {up u : Nat} {pkt q : Packet}
    (h : q ∈ (a.pushInBuf kind bank up pkt).inBufs k b u) :
    q ∈ a.inBufs k b u ∨ q = pkt ∧ k = kind ∧ b = bank := by
  rw [pushInBuf_inBufs] at h
  split at h
  · rename_i hif
    rcases List.mem_append.mp h with h | h
    · exact Or.inl h
    · exact Or.inr ⟨List.mem_singleton.mp h, hif.1, hif.2.1⟩
  · exact Or.inl h

theorem mem_popInBuf {a : DramArb} {c : Config} {kind k : Kind} {bank b : Bank} {up u : Nat}
    {q : Packet} (h : q ∈ (a.popInBuf c kind bank up).inBufs k b u) : q ∈ a.inBufs k b u := by
  rw [popInBuf_inBufs] at h
  split at h
  · exact List.mem_of_mem_tail h
  · exact h

/-- Record an accepted read as outstanding; the counter is an `unsigned int`. -/
def recordRead (a : DramArb) (bank : Bank) (up : Nat) (pkt : Packet) : DramArb :=
  { a with
    outstandingReads := Function.update a.outstandingReads bank
      ((a.outstandingReads bank).push pkt.addr pkt)
    outstandingUpstream := Function.update a.outstandingUpstream bank
      ((a.outstandingUpstream bank).push pkt.addr up)
    nbrOutstandingReads := Function.update a.nbrOutstandingReads bank
      ((a.nbrOutstandingReads bank + 1) % 2 ^ 32) }

/-- Drop the oldest record of an address. -/
def dropRecord (a : DramArb) (bank : Bank) (addr : Addr) : DramArb :=
  { a with
    outstandingReads := Function.update a.outstandingReads bank
      ((a.outstandingReads bank).pop addr)
    outstandingUpstream := Function.update a.outstandingUpstream bank
      ((a.outstandingUpstream bank).pop addr)
    nbrOutstandingReads := Function.update a.nbrOutstandingReads bank
      (a.nbrOutstandingReads bank - 1) }

def pushResponse (a : DramArb) (bank : Bank) (pkt : Packet) (up : Nat) : DramArb :=
  { a with
    responseQueue := Function.update a.responseQueue bank
      (a.responseQueue bank ++ [(pkt, up)]) }

def popResponse (a : DramArb) (bank : Bank) : DramArb :=
  { a with responseQueue := Function.update a.responseQueue bank (a.responseQueue bank).tail }

def setRetryReq (a : DramArb) (bank : Bank) (up : Nat) (flag : Bool) : DramArb :=
  { a with retryReq := set2 a.retryReq bank up flag }

def setRetryResp (a : DramArb) (bank : Bank) (up : Nat) (flag : Bool) : DramArb :=
  { a with retryResp := set2 a.retryResp bank up flag }

end DramArb

def World.setArb (w : World δ) (a : DramArb) : World δ := { w with arb := a }

def World.note (w : World δ) (e : PortEvent) : World δ := { w with log := e :: w.log }

variable (c : Config) (P : Peers c.numUpstreams δ)

/-! ## Events -/

/-- `if (!arbEvent.scheduled()) schedule(arbEvent, curTick() + 1)` -/
def scheduleArbEvent (w : World δ) : World δ :=
  if w.arb.arbEvent then w
  else { w with arb := { w.arb with arbEvent := true }, rest := P.schedule .arb w.rest }

/-- `if (!sendResponseEvent.scheduled()) schedule(sendResponseEvent, curTick() + 1)` -/
def scheduleSendResponseEvent (w : World δ) : World δ :=
  if w.arb.sendResponseEvent then w
  else { w with
    arb := { w.arb with sendResponseEvent := true }
    rest := P.schedule .sendResponse w.rest }

/-! ## Requests from upstream -/

/-- The fields after an accepted request, or nothing when the request is refused. -/
def acceptRequest (a : DramArb) (pkt : Packet) (bank : Bank) (up : Nat) : Option DramArb :=
  let canAcceptRead := a.nbrOutstandingReads bank + (a.responseQueue bank).length < c.limit
  if pkt.isRead then
    if canAcceptRead then some ((a.pushInBuf .read bank up pkt).recordRead bank up pkt) else none
  else if pkt.isWrite then
    if (a.writeInBufs bank up).length < c.limit then some (a.pushInBuf .write bank up pkt)
    else none
  else none

/-- `DramArb::recvTimingReqUp` -/
def recvTimingReqUp (pkt : Packet) (bank : Bank) (up : Nat) (w : World δ) : Bool × World δ :=
  match acceptRequest c w.arb pkt bank up with
  | some a => (true, (scheduleArbEvent c P (w.setArb a)).note (.request bank up pkt true))
  | none =>
    (false, (w.setArb (w.arb.setRetryReq bank up true)).note (.request bank up pkt false))

/-! ## Responses from downstream -/

/-- The asserts of `recvTimingResp`, and `front()` of an empty queue. -/
inductive Abort
  | noOutstandingRead
  | emptyQueue
  | noReadCredit
  | noUpstream
deriving DecidableEq, Repr

/-- `DramArb::accessAndRespond` -/
def accessAndRespond (bank : Bank) (pkt : Packet) (up : Nat) (w : World δ) : World δ :=
  scheduleSendResponseEvent c P (w.setArb (w.arb.pushResponse bank pkt up))

/-- `DramArb::recvTimingResp`. A missing entry of `outstandingUpstream` is created empty by
`operator[]`, and the assert that follows fails on it. -/
def recvTimingResp (pkt : Packet) (bank : Bank) (w : World δ) : Except Abort (World δ) :=
  let addr := pkt.addr
  match (w.arb.outstandingReads bank).lookup addr with
  | none => .error .noOutstandingRead
  | some [] => .error .emptyQueue
  | some (resPkt :: _) =>
    if w.arb.nbrOutstandingReads bank = 0 then .error .noReadCredit
    else match (w.arb.outstandingUpstream bank).get addr with
      | [] => .error .noUpstream
      | up :: _ =>
        .ok (accessAndRespond c P bank resPkt up
          ((w.setArb (w.arb.dropRecord bank addr)).note (.response bank pkt)))

/-! ## Responses to upstream -/

/-- Run what an upstream does from inside a call. -/
def Reaction.run {ρ : Type} : Reaction c.numUpstreams δ ρ → World δ → ρ × World δ
  | .done result d, w => (result, { w with rest := d })
  | .request bank up pkt d next, w =>
    let r := recvTimingReqUp c P pkt bank up { w with rest := d }
    (next r.1 r.2.rest).run r.2

/-- `responsePorts[bank][up].sendTimingResp(pkt)` -/
def sendTimingResp (bank : Bank) (up : Nat) (pkt : Packet) (w : World δ) : Bool × World δ :=
  let r := (P.sendTimingResp bank up pkt w.rest).run c P w
  (r.1, r.2.note (.sendResp bank up pkt r.1))

/-- `responsePorts[bank][up].sendRetryReq()` -/
def sendRetryReq (bank : Bank) (up : Nat) (w : World δ) : World δ :=
  ((P.recvReqRetry bank up w.rest).run c P (w.note (.retryReq bank up))).2

/-- A response was taken: pop it and reschedule `sendResponseEvent` when more are left. -/
def popFront (bank : Bank) (w : World δ) : World δ :=
  let w := w.setArb (w.arb.popResponse bank)
  if (w.arb.responseQueue bank).isEmpty then w else scheduleSendResponseEvent c P w

/-- A response to `target` was taken in the iteration of the index `i`: the retry goes to
`target`, the flag that is tested and cleared is that of `i`. -/
def retryAfter (bank : Bank) (i target : Nat) (w : World δ) : World δ :=
  if w.arb.retryReq bank i then
    let w := sendRetryReq c P bank target w
    w.setArb (w.arb.setRetryReq bank i false)
  else w

/-- The body of the loops of `sendResponse`, for the bank and the loop index `i`. -/
def sendResponseAt (w : World δ) (bi : Bank × Nat) : World δ :=
  let (bank, i) := bi
  if w.arb.retryResp bank i then w
  else match w.arb.responseQueue bank with
    | [] => w
    | (pkt, target) :: _ =>
      let r := sendTimingResp c P bank target pkt w
      if r.1 then retryAfter c P bank i target (popFront c P bank r.2)
      else r.2.setArb (r.2.arb.setRetryResp bank i true)

/-- The iterations of the two nested loops of `sendResponse`, in order. -/
def visits : List (Bank × Nat) :=
  banks.flatMap fun bank => (List.range c.numUpstreams).map fun i => (bank, i)

/-- `DramArb::sendResponse` -/
def sendResponse (w : World δ) : World δ := (visits c).foldl (sendResponseAt c P) w

/-- The flag of `(bank, up)` is cleared by a response retry. -/
def World.clearRetryResp (bank : Bank) (up : Nat) (w : World δ) : World δ :=
  (w.setArb (w.arb.setRetryResp bank up false)).note (.respRetry bank up)

/-- `DramArb::handleRespRetry` -/
def handleRespRetry (bank : Bank) (up : Nat) (w : World δ) : World δ :=
  sendResponse c P (w.clearRetryResp bank up)

/-! ## Arbitration -/

/-- The common body of `arbitrateReadRequests` and `arbitrateWriteRequests`, over the remaining
values of the loop variable `k`. -/
def arbitrateRequests (kind : Kind) (bank : Bank) : List Nat → World δ → Bool × World δ
  | [], w => (false, w)
  | k :: ks, w =>
    let up := (w.arb.rrIdx kind bank + k) % c.numUpstreams
    match w.arb.inBufs kind bank up with
    | [] => arbitrateRequests kind bank ks w
    | pkt :: _ =>
      let r := P.sendTimingReq bank pkt w.rest
      let w := { w.note (.sendReq bank pkt r.1) with rest := r.2 }
      if r.1 then (true, w.setArb (w.arb.popInBuf c kind bank up))
      else arbitrateRequests kind bank ks w

/-- `DramArb::arbitrateReadRequests` -/
def arbitrateReadRequests (bank : Bank) (w : World δ) : Bool × World δ :=
  arbitrateRequests c P .read bank (List.range c.numUpstreams) w

/-- `DramArb::arbitrateWriteRequests` -/
def arbitrateWriteRequests (bank : Bank) (w : World δ) : Bool × World δ :=
  arbitrateRequests c P .write bank (List.range c.numUpstreams) w

omit P in
/-- `DramArb::checkPendingRequests` -/
def checkPendingRequests (a : DramArb) (bank : Bank) : Bool :=
  (List.range c.numUpstreams).any fun up =>
    !(a.readInBufs bank up).isEmpty || !(a.writeInBufs bank up).isEmpty

/-- The sends of one bank in a round: a write only when no read was sent. -/
def arbitrateBank (bank : Bank) (w : World δ) : Bool × World δ :=
  let r := arbitrateReadRequests c P bank w
  if r.1 then r else arbitrateWriteRequests c P bank r.2

/-- The local variables of `arbitrate`. -/
structure Round (δ : Type) where
  needResched : Bool
  hasPending : Bool
  world : World δ

/-- The body of the loop of `arbitrate`; `has_pending` is overwritten by every bank. -/
def arbitrateStep (r : Round δ) (bank : Bank) : Round δ :=
  let s := arbitrateBank c P bank r.world
  { hasPending := checkPendingRequests c s.2.arb bank
    needResched := r.needResched || !s.1
    world := s.2 }

/-- `DramArb::arbitrate` -/
def arbitrate (w : World δ) : World δ :=
  let r := banks.foldl (arbitrateStep c P) ⟨false, false, w⟩
  if r.hasPending || r.needResched then scheduleArbEvent c P r.world else r.world

/-- `DramArb::handleReqRetry` -/
def handleReqRetry (bank : Bank) (w : World δ) : World δ :=
  scheduleArbEvent c P (w.note (.reqRetry bank))

/-! ## Runs -/

/-- What can happen to the arbiter: a request at a response port, one of its events being
serviced, a call of the downstream or of an upstream, or a step of the rest of the world. -/
inductive Action (n : Nat) (δ : Type)
  | request (bank : Bank) (up : Fin n) (pkt : Packet)
  | arbitrate
  | sendResponse
  | response (bank : Bank) (pkt : Packet)
  | reqRetry (bank : Bank)
  | respRetry (bank : Bank) (up : Fin n)
  | rest (d : δ)

/-- `EventQueue::serviceOne` clears the flag of the event before it is processed. -/
def World.clearArbEvent (w : World δ) : World δ := w.setArb { w.arb with arbEvent := false }

def World.clearSendResponseEvent (w : World δ) : World δ :=
  w.setArb { w.arb with sendResponseEvent := false }

/-- One step; a failed assert ends the run. -/
def step (w : World δ) : Action c.numUpstreams δ → Option (World δ)
  | .request bank up pkt => some (recvTimingReqUp c P pkt bank up w).2
  | .arbitrate => if w.arb.arbEvent then some (arbitrate c P w.clearArbEvent) else none
  | .sendResponse =>
    if w.arb.sendResponseEvent then some (sendResponse c P w.clearSendResponseEvent) else none
  | .response bank pkt => (recvTimingResp c P pkt bank w).toOption
  | .reqRetry bank => some (handleReqRetry c P bank w)
  | .respRetry bank up => some (handleRespRetry c P bank up w)
  | .rest d => some { w with rest := d }

/-- The world before anything has happened. -/
def World.init (d : δ) : World δ := { arb := DramArb.init, log := [], rest := d }

end NetSim.Arbiter
