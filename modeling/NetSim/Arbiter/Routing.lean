import Mathlib.Data.Multiset.AddSub
import NetSim.Arbiter.Moves

/-!
# Routing of responses

The arbiter keeps an accepted read and the upstream it came from in two maps of queues, both
keyed by the address. The queues of the two maps have equal lengths in every run, so position by
position they pair every outstanding read with its upstream, and every accepted read is at
exactly one of three places: among these pairs, in the response queue, or delivered.
-/

namespace NetSim.Arbiter

open Common Library

/-! ## Reads in the log -/

/-- The read that an entry of the log accepts on `(bank, up)`. -/
def PortEvent.acceptedRead (bank : Bank) (up : Nat) : PortEvent → Option Packet
  | .request b u pkt true => if b = bank ∧ u = up ∧ pkt.isRead then some pkt else none
  | _ => none

/-- The packet that an entry of the log delivers on `(bank, up)`. -/
def PortEvent.delivered (bank : Bank) (up : Nat) : PortEvent → Option Packet
  | .sendResp b u pkt true => if b = bank ∧ u = up then some pkt else none
  | _ => none

/-- The reads accepted on `(bank, up)`. -/
def acceptedReads (bank : Bank) (up : Nat) (log : Log) : List Packet :=
  log.filterMap (PortEvent.acceptedRead bank up)

/-- The packets accepted by `sendTimingResp` on `responsePorts[bank][up]`. -/
def deliveredReads (bank : Bank) (up : Nat) (log : Log) : List Packet :=
  log.filterMap (PortEvent.delivered bank up)

@[simp] theorem acceptedReads_cons (bank : Bank) (up : Nat) (e : PortEvent) (log : Log) :
    acceptedReads bank up (e :: log) =
      (e.acceptedRead bank up).toList ++ acceptedReads bank up log := by
  cases h : e.acceptedRead bank up <;> simp [acceptedReads, h]

@[simp] theorem deliveredReads_cons (bank : Bank) (up : Nat) (e : PortEvent) (log : Log) :
    deliveredReads bank up (e :: log) =
      (e.delivered bank up).toList ++ deliveredReads bank up log := by
  cases h : e.delivered bank up <;> simp [deliveredReads, h]

/-! ## Reads in the arbiter -/

/-- The first components of the pairs whose second component is `up`. -/
def pairedWith (up : Nat) (pairs : List (Packet × Nat)) : List Packet :=
  (pairs.filter fun e => e.2 = up).map Prod.fst

theorem count_pairedWith (up : Nat) (pkt : Packet) (pairs : List (Packet × Nat)) :
    (pairedWith up pairs).count pkt = pairs.count (pkt, up) := by
  induction pairs with
  | nil => rfl
  | cons e pairs ih =>
    obtain ⟨p, u⟩ := e
    by_cases hu : u = up
    · simp [pairedWith, hu, List.count_cons] at ih ⊢
      exact ih
    · simpa [pairedWith, hu, List.count_cons] using ih

/-- The records of bank `bank`: every outstanding read with its upstream. -/
def DramArb.records (a : DramArb) (bank : Bank) : List (Packet × Nat) :=
  (a.outstandingReads bank).zipQueues (a.outstandingUpstream bank)

/-- The two maps agree, and every accepted read is recorded, queued or delivered. -/
structure Routed (s : Core) : Prop where
  lockstep : ∀ bank addr, ((s.arb.outstandingReads bank).get addr).length =
    ((s.arb.outstandingUpstream bank).get addr).length
  balance : ∀ bank up pkt, (acceptedReads bank up s.log).count pkt =
    (s.arb.records bank).count (pkt, up) + (s.arb.responseQueue bank).count (pkt, up) +
      (deliveredReads bank up s.log).count pkt

theorem routed_init : Routed Core.init where
  lockstep := fun _ _ => by simp [Core.init, DramArb.init]
  balance := fun _ _ _ => rfl

/-! ## One move -/

variable {c : Config} {s s' : Core}

/-- A move that touches neither the records nor the response queues, and accepts and delivers
nothing. -/
theorem Routed.frame (h : Routed s) (hreads : s'.arb.outstandingReads = s.arb.outstandingReads)
    (hups : s'.arb.outstandingUpstream = s.arb.outstandingUpstream)
    (hqueue : s'.arb.responseQueue = s.arb.responseQueue)
    (haccepted : ∀ bank up, acceptedReads bank up s'.log = acceptedReads bank up s.log)
    (hdelivered : ∀ bank up, deliveredReads bank up s'.log = deliveredReads bank up s.log) :
    Routed s' where
  lockstep := by
    rw [hreads, hups]
    exact h.lockstep
  balance := by
    intro bank up pkt
    rw [haccepted, hdelivered, hqueue, DramArb.records, hreads, hups]
    exact h.balance bank up pkt

/-- An accepted read is recorded. -/
theorem Routed.recordRead {a : DramArb} {log : Log} (h : Routed ⟨a, log⟩) (bank : Bank) (up : Nat)
    {pkt : Packet} (hread : pkt.isRead = true) (inBufs : Kind → Bank → Nat → List Packet)
    (arbEvent : Bool) :
    Routed ⟨{ a.recordRead bank up pkt with inBufs := inBufs, arbEvent := arbEvent },
      .request bank up pkt true :: log⟩ where
  lockstep := by
    intro b addr
    have hlen := h.lockstep b addr
    by_cases hb : b = bank
    · subst hb
      simp only [DramArb.recordRead, Function.update_self, QueueMap.get_push]
      split
      · rename_i haddr
        subst haddr
        simpa using hlen
      · exact hlen
    · simpa [DramArb.recordRead, hb] using hlen
  balance := by
    intro b u q
    have hbal := h.balance b u q
    by_cases hb : b = bank
    · subst hb
      have hrec := QueueMap.count_zipQueues_push (a.outstandingReads b) (a.outstandingUpstream b)
        pkt.addr pkt up (h.lockstep b pkt.addr) (q, u)
      have haccepted : (acceptedReads b u (.request b up pkt true :: log)).count q =
          (acceptedReads b u log).count q + [(pkt, up)].count (q, u) := by
        by_cases hu : up = u
        · simp [PortEvent.acceptedRead, hu, hread, List.count_cons, add_comm]
        · simp [PortEvent.acceptedRead, hu]
      simp only [DramArb.records, DramArb.recordRead, Function.update_self, deliveredReads_cons,
        PortEvent.delivered, Option.toList_none, List.nil_append] at hrec hbal ⊢
      omega
    · have hb' : bank ≠ b := fun e => hb e.symm
      simpa [DramArb.records, DramArb.recordRead, PortEvent.acceptedRead, PortEvent.delivered,
        hb, hb'] using hbal

/-- A delivered response leaves the queue. -/
theorem Routed.popResponse {a : DramArb} {log : Log} (h : Routed ⟨a, log⟩) {bank : Bank}
    {pkt : Packet} {up : Nat} {rest : List (Packet × Nat)}
    (hfront : a.responseQueue bank = (pkt, up) :: rest) :
    Routed ⟨a.popResponse bank, .sendResp bank up pkt true :: log⟩ where
  lockstep := h.lockstep
  balance := by
    intro b u q
    have hbal := h.balance b u q
    by_cases hb : b = bank
    · subst hb
      have hdelivered : (deliveredReads b u (.sendResp b up pkt true :: log)).count q =
          (deliveredReads b u log).count q + [(pkt, up)].count (q, u) := by
        by_cases hu : up = u
        · simp [PortEvent.delivered, hu, List.count_cons, add_comm]
        · simp [PortEvent.delivered, hu]
      have hqueue : (a.responseQueue b).count (q, u) =
          rest.count (q, u) + [(pkt, up)].count (q, u) := by
        rw [hfront, List.count_cons, List.count_singleton]
      rw [hdelivered]
      simp only [DramArb.records, DramArb.popResponse, Function.update_self,
        acceptedReads_cons, PortEvent.acceptedRead, Option.toList_none, List.nil_append]
        at hbal ⊢
      rw [hqueue] at hbal
      rw [hfront, List.tail_cons]
      omega
    · have hb' : bank ≠ b := fun e => hb e.symm
      simpa [DramArb.records, DramArb.popResponse, PortEvent.acceptedRead, PortEvent.delivered,
        hb, hb'] using hbal

/-- An answered read moves from the records to the response queue. -/
theorem Routed.response {a : DramArb} {log : Log} (h : Routed ⟨a, log⟩) {bank : Bank}
    {pkt resPkt : Packet} {up : Nat} {reads : List Packet} {ups : List Nat}
    (hread : (a.outstandingReads bank).get pkt.addr = resPkt :: reads)
    (hup : (a.outstandingUpstream bank).get pkt.addr = up :: ups) :
    Routed ⟨(a.dropRecord bank pkt.addr).pushResponse bank resPkt up,
      .response bank pkt :: log⟩ where
  lockstep := by
    intro b addr
    have hlen := h.lockstep b addr
    by_cases hb : b = bank
    · subst hb
      simp only [DramArb.dropRecord, DramArb.pushResponse, Function.update_self,
        QueueMap.get_pop]
      split
      · rename_i haddr
        subst haddr
        simpa using congrArg (· - 1) hlen
      · exact hlen
    · simpa [DramArb.dropRecord, DramArb.pushResponse, hb] using hlen
  balance := by
    intro b u q
    have hbal := h.balance b u q
    by_cases hb : b = bank
    · subst hb
      have hrec := QueueMap.count_zipQueues_pop hread hup (q, u)
      simp only [DramArb.records, DramArb.dropRecord, DramArb.pushResponse,
        Function.update_self, List.count_append, acceptedReads_cons, deliveredReads_cons,
        PortEvent.acceptedRead, PortEvent.delivered, Option.toList_none, List.nil_append]
        at hbal ⊢
      omega
    · simpa [DramArb.records, DramArb.dropRecord, DramArb.pushResponse, PortEvent.acceptedRead,
        PortEvent.delivered, hb] using hbal

theorem Routed.respMove (h : Routed s) (hmove : RespMove c s s') : Routed s' := by
  cases hmove with
  | requested hreq =>
    cases hreq with
    | accept hup hacc =>
      obtain ⟨hread, -, rfl⟩ | ⟨hread, -, rfl⟩ := acceptRequest_cases hacc
      · exact h.recordRead _ _ hread _ true
      · refine h.frame rfl rfl rfl (fun bank up => ?_) (fun _ _ => rfl)
        simp [PortEvent.acceptedRead, hread]
    | refuse => exact h.frame rfl rfl rfl (fun _ _ => rfl) (fun _ _ => rfl)
  | delivered hfront => exact h.popResponse hfront
  | bounced | retried | cleared | event =>
    exact h.frame rfl rfl rfl (fun _ _ => rfl) (fun _ _ => rfl)

theorem Routed.move (h : Routed s) (hmove : Move c s s') : Routed s' := by
  cases hmove with
  | resp hmove => exact h.respMove hmove
  | arb hmove =>
    cases hmove with
    | offered hoffer =>
      cases hoffer with
      | refused | taken => exact h.frame rfl rfl rfl (fun _ _ => rfl) (fun _ _ => rfl)
    | event => exact h.frame rfl rfl rfl (fun _ _ => rfl) (fun _ _ => rfl)
  | response hread hcredit hup => exact h.response hread hup
  | respRetry | reqRetry => exact h.frame rfl rfl rfl (fun _ _ => rfl) (fun _ _ => rfl)

/-! ## Every run -/

variable {δ : Type} {P : Peers c.numUpstreams δ} {w : World δ} {d : δ}

/-- No read is lost, duplicated or delivered to another upstream than the one it came from. -/
theorem accepted_reads_routed (h : Reach (Steps (step c P)) Free (World.init d) w) (bank : Bank)
    (up : Nat) :
    (acceptedReads bank up w.log : Multiset Packet) =
      pairedWith up (w.arb.records bank) + pairedWith up (w.arb.responseQueue bank) +
        deliveredReads bank up w.log ∧
    (deliveredReads bank up w.log : Multiset Packet) ≤ acceptedReads bank up w.log := by
  have hrouted : Routed w.toCore := reach_invariant routed_init (fun _ _ m hs => hs.move m) h
  have hsplit : (acceptedReads bank up w.log : Multiset Packet) =
      pairedWith up (w.arb.records bank) + pairedWith up (w.arb.responseQueue bank) +
        deliveredReads bank up w.log := by
    ext pkt
    simp only [Multiset.count_add, Multiset.coe_count, count_pairedWith]
    exact hrouted.balance bank up pkt
  exact ⟨hsplit, hsplit ▸ Multiset.le_add_left _ _⟩

/-- Two reads of one address from two upstreams: the first is answered and delivered, the second
is recorded. -/
theorem accepted_reads_routed_same_address :
    ∃ w, Reach (Steps (step (Config.small 2 1) (Peers.constant true true))) Free
        (World.init ()) w ∧
      acceptedReads 0 1 w.log = [⟨0, 64, false⟩] ∧ deliveredReads 0 1 w.log = [⟨0, 64, false⟩] ∧
      (acceptedReads 0 0 w.log : Multiset Packet) =
        pairedWith 0 (w.arb.records 0) + pairedWith 0 (w.arb.responseQueue 0) +
          deliveredReads 0 0 w.log ∧
      acceptedReads 0 0 w.log = [⟨1, 64, false⟩] ∧ deliveredReads 0 0 w.log = [] := by
  obtain ⟨w, hw, hp⟩ := Reach.of_run (step (Config.small 2 1) (Peers.constant true true)) Free
    (World.init ())
    [.request 0 1 ⟨0, 64, false⟩, .request 0 0 ⟨1, 64, false⟩, .arbitrate, .arbitrate,
      .response 0 ⟨1, 64, false⟩, .sendResponse]
    (fun w => acceptedReads 0 1 w.log = [⟨0, 64, false⟩] ∧
      deliveredReads 0 1 w.log = [⟨0, 64, false⟩] ∧
      acceptedReads 0 0 w.log = [⟨1, 64, false⟩] ∧ deliveredReads 0 0 w.log = [])
    (by decide +kernel)
  obtain ⟨h1, h2, h3, h4⟩ := of_decide_eq_true hp
  exact ⟨w, hw, h1, h2, (accepted_reads_routed hw 0 0).1, h3, h4⟩

end NetSim.Arbiter
