import NetSim.Dram.Channel

/-!
# Transaction accounting of a memory object

Accepted transactions are kept in two maps of queues and in two counters until the memory model
reports them; a completed read then moves to the response queue and from there to the peer. The
books are compared with the history: the accepted reads of an address are, in order of acceptance,
those delivered, those in the response queue and those outstanding. The counters are of type
`unsigned int` and so are the number of outstanding transactions modulo `2 ^ 32`.
-/

namespace NetSim.Dram

open Common Event Library

/-! ## Reading the history -/

def acceptedPacket : DramEntry → Option Packet
  | .request pkt true _ => some pkt
  | _ => none

def deliveredPacket : DramEntry → Option Packet
  | .sendResp pkt true => some pkt
  | _ => none

/-- The accepted requests, in order of acceptance. -/
def accepted (log : List DramEntry) : List Packet := log.reverse.filterMap acceptedPacket

/-- The responses that the peer took, in order of delivery. -/
def delivered (log : List DramEntry) : List Packet := log.reverse.filterMap deliveredPacket

theorem accepted_cons (x : DramEntry) (log : List DramEntry) :
    accepted (x :: log) = accepted log ++ (acceptedPacket x).toList := by
  simp only [accepted, List.reverse_cons, List.filterMap_append]
  cases hx : acceptedPacket x <;> simp [hx]

theorem delivered_cons (x : DramEntry) (log : List DramEntry) :
    delivered (x :: log) = delivered log ++ (deliveredPacket x).toList := by
  simp only [delivered, List.reverse_cons, List.filterMap_append]
  cases hx : deliveredPacket x <;> simp [hx]

/-- The packets of an address. -/
def atAddr (addr : Addr) (pkts : List Packet) : List Packet := pkts.filter fun p => p.addr = addr

/-- The reads of an address. -/
def readsAt (addr : Addr) (pkts : List Packet) : List Packet :=
  pkts.filter fun p => p.isRead ∧ p.addr = addr

/-- The number of writes of an address. -/
def writesAt (addr : Addr) (pkts : List Packet) : Nat :=
  pkts.countP fun p => p.isWrite ∧ p.addr = addr

theorem readsAt_snoc (addr : Addr) (l : List Packet) (pkt : Packet) :
    readsAt addr (l ++ [pkt]) =
      readsAt addr l ++ if pkt.isWrite = false ∧ pkt.addr = addr then [pkt] else [] := by
  simp only [readsAt, List.filter_append, List.filter_cons, List.filter_nil, decide_eq_true_eq,
    Packet.isRead, Bool.not_eq_true']

theorem writesAt_snoc (addr : Addr) (l : List Packet) (pkt : Packet) :
    writesAt addr (l ++ [pkt]) =
      writesAt addr l + if pkt.isWrite = true ∧ pkt.addr = addr then 1 else 0 := by
  simp only [writesAt, List.countP_append, List.countP_singleton, decide_eq_true_eq]

/-- The transactions of one kind that were accepted and not yet reported. -/
def DRAMsim3.outstanding (d : DRAMsim3) : Bool → QueueMap Addr Packet
  | true => d.outstandingWrites
  | false => d.outstandingReads

/-- The memory model reports a transaction of this object that was accepted and not yet reported. -/
def LegalReport (s : Channel) : DramAction → Prop
  | .complete addr isWrite => s.log.count (.complete addr isWrite) <
      (accepted s.log).countP fun p => p.addr = addr ∧ p.isWrite = isWrite
  | _ => True

instance (s : Channel) (action : DramAction) : Decidable (LegalReport s action) :=
  match action with
  | .complete _ _ => inferInstanceAs (Decidable (_ < _))
  | .request _ _ | .serviceOne _ _ | .respRetry _ _ | .advance _ => .isTrue trivial

/-- The books agree with the history. -/
structure Accounted (d : DRAMsim3) (log : List DramEntry) : Prop where
  reads : ∀ addr, readsAt addr (accepted log) =
    atAddr addr (delivered log) ++ atAddr addr d.responseQueue ++ d.outstandingReads.get addr
  completed : ∀ addr, log.count (.complete addr false) =
    (atAddr addr (delivered log)).length + (atAddr addr d.responseQueue).length
  writes : ∀ addr, writesAt addr (accepted log) =
    log.count (.complete addr true) + (d.outstandingWrites.get addr).length
  noEmptyReads : d.outstandingReads.NoEmpty
  noEmptyWrites : d.outstandingWrites.NoEmpty
  nbrReads : d.nbrOutstandingReads = d.outstandingReads.total % 2 ^ 32
  nbrWrites : d.nbrOutstandingWrites = d.outstandingWrites.total % 2 ^ 32

namespace Accounted

variable {d : DRAMsim3} {log : List DramEntry} {addr : Addr} {pkt : Packet} {rest : List Packet}

theorem init : Accounted .init [] where
  reads := fun addr => by simp [DRAMsim3.init, readsAt, atAddr, accepted, delivered]
  completed := fun addr => by simp [DRAMsim3.init, atAddr, delivered]
  writes := fun addr => by simp [DRAMsim3.init, writesAt, accepted]
  noEmptyReads := QueueMap.noEmpty_empty
  noEmptyWrites := QueueMap.noEmpty_empty
  nbrReads := rfl
  nbrWrites := rfl

theorem setRetryReq (h : Accounted d log) (flag : Bool) : Accounted (d.setRetryReq flag) log :=
  ⟨h.reads, h.completed, h.writes, h.noEmptyReads, h.noEmptyWrites, h.nbrReads, h.nbrWrites⟩

theorem setRetryResp (h : Accounted d log) (flag : Bool) : Accounted (d.setRetryResp flag) log :=
  ⟨h.reads, h.completed, h.writes, h.noEmptyReads, h.noEmptyWrites, h.nbrReads, h.nbrWrites⟩

/-- An entry that moves no transaction. -/
theorem note (h : Accounted d log) {x : DramEntry} (hacc : acceptedPacket x = none)
    (hdel : deliveredPacket x = none) (hx : ∀ addr isWrite, x ≠ .complete addr isWrite) :
    Accounted d (x :: log) := by
  have hA : accepted (x :: log) = accepted log := by simp [accepted_cons, hacc]
  have hD : delivered (x :: log) = delivered log := by simp [delivered_cons, hdel]
  have hC : ∀ addr isWrite, (x :: log).count (.complete addr isWrite) =
      log.count (.complete addr isWrite) := fun addr isWrite =>
    List.count_cons_of_ne (hx addr isWrite)
  refine ⟨?_, ?_, ?_, h.noEmptyReads, h.noEmptyWrites, h.nbrReads, h.nbrWrites⟩
  · simp only [hA, hD]
    exact h.reads
  · simp only [hC, hD]
    exact h.completed
  · simp only [hA, hC]
    exact h.writes

/-- An accepted request is recorded. -/
theorem record (h : Accounted d log) (pkt : Packet) (t : Tick) :
    Accounted (d.record pkt) (.request pkt true t :: log) := by
  have hA : accepted (.request pkt true t :: log) = accepted log ++ [pkt] := accepted_cons _ _
  have hD : delivered (.request pkt true t :: log) = delivered log := by
    simp [delivered_cons, deliveredPacket]
  have hC : ∀ addr isWrite, (DramEntry.request pkt true t :: log).count (.complete addr isWrite) =
      log.count (.complete addr isWrite) := fun addr isWrite => List.count_cons_of_ne (by simp)
  cases hw : pkt.isWrite with
  | false =>
    have hrec : d.record pkt = { d with
        outstandingReads := d.outstandingReads.push pkt.addr pkt
        nbrOutstandingReads := (d.nbrOutstandingReads + 1) % 2 ^ 32 } := by
      simp only [DRAMsim3.record, hw, Bool.not_false, if_true]
    rw [hrec]
    refine ⟨fun addr => ?_, fun addr => ?_, fun addr => ?_, h.noEmptyReads.push _ _,
      h.noEmptyWrites, ?_, h.nbrWrites⟩
    · rw [hA, hD, readsAt_snoc, h.reads addr, QueueMap.get_push, List.append_assoc]
      by_cases haddr : addr = pkt.addr
      · subst haddr
        simp only [hw, true_and, if_true, List.append_assoc]
      · simp only [Ne.symm haddr, haddr, and_false, if_false, List.append_nil]
    · rw [hC, hD]
      exact h.completed addr
    · rw [hA, hC, writesAt_snoc, h.writes addr]
      simp only [hw, Bool.false_eq_true, false_and, if_false, Nat.add_zero]
    · simp only [QueueMap.total_push, h.nbrReads]
      omega
  | true =>
    have hrec : d.record pkt = { d with
        outstandingWrites := d.outstandingWrites.push pkt.addr pkt
        nbrOutstandingWrites := (d.nbrOutstandingWrites + 1) % 2 ^ 32 } := by
      simp only [DRAMsim3.record, hw, Bool.not_true, Bool.false_eq_true, if_false]
    rw [hrec]
    refine ⟨fun addr => ?_, fun addr => ?_, fun addr => ?_, h.noEmptyReads,
      h.noEmptyWrites.push _ _, h.nbrReads, ?_⟩
    · rw [hA, hD, readsAt_snoc, h.reads addr]
      simp only [hw, Bool.true_eq_false, false_and, if_false, List.append_nil]
    · rw [hC, hD]
      exact h.completed addr
    · rw [hA, hC, writesAt_snoc, h.writes addr, QueueMap.get_push]
      by_cases haddr : addr = pkt.addr
      · subst haddr
        simp only [hw, true_and, if_true, List.length_append, List.length_singleton, Nat.add_assoc]
      · simp only [Ne.symm haddr, haddr, and_false, if_false, Nat.add_zero]
    · simp only [QueueMap.total_push, h.nbrWrites]
      omega

/-- The memory model reports a read: the oldest one of its address moves to the response queue. -/
theorem readComplete (h : Accounted d log)
    (hlook : d.outstandingReads.lookup addr = some (pkt :: rest))
    (hcredit : d.nbrOutstandingReads ≠ 0) :
    Accounted ((d.dropRead addr).pushResponse pkt) (.complete addr false :: log) := by
  have hget : d.outstandingReads.get addr = pkt :: rest := by simp [QueueMap.get, hlook]
  have haddr : pkt.addr = addr := by
    have hmem : pkt ∈ readsAt addr (accepted log) := by simp [h.reads addr, hget]
    have hp := (List.mem_filter.mp hmem).2
    simp only [decide_eq_true_eq] at hp
    exact hp.2
  have hA : accepted (.complete addr false :: log) = accepted log := by
    simp [accepted_cons, acceptedPacket]
  have hD : delivered (.complete addr false :: log) = delivered log := by
    simp [delivered_cons, deliveredPacket]
  have hQ : ∀ a, atAddr a ((d.dropRead addr).pushResponse pkt).responseQueue =
      atAddr a d.responseQueue ++ if addr = a then [pkt] else [] := by
    intro a
    simp only [DRAMsim3.pushResponse, DRAMsim3.dropRead, atAddr, List.filter_append,
      List.filter_cons, List.filter_nil, haddr, decide_eq_true_eq]
  refine ⟨fun a => ?_, fun a => ?_, fun a => ?_, h.noEmptyReads.pop _, h.noEmptyWrites, ?_,
    h.nbrWrites⟩
  · rw [hA, hD, hQ, h.reads a]
    simp only [DRAMsim3.pushResponse, DRAMsim3.dropRead, QueueMap.get_pop]
    by_cases ha : a = addr
    · subst ha
      simp [hget]
    · simp [ha, Ne.symm ha]
  · rw [hD, hQ, List.count_cons, h.completed a]
    by_cases ha : addr = a
    · subst ha
      simp
      omega
    · simp [ha]
  · rw [hA, List.count_cons_of_ne (by simp)]
    exact h.writes a
  · have htotal := QueueMap.total_pop (m := d.outstandingReads) (k := addr) (by simp [hget])
    have hnbr := h.nbrReads
    simp only [DRAMsim3.pushResponse, DRAMsim3.dropRead]
    omega

/-- The memory model reports a write. -/
theorem writeComplete (h : Accounted d log)
    (hlook : d.outstandingWrites.lookup addr = some (pkt :: rest))
    (hcredit : d.nbrOutstandingWrites ≠ 0) :
    Accounted (d.dropWrite addr) (.complete addr true :: log) := by
  have hget : d.outstandingWrites.get addr = pkt :: rest := by simp [QueueMap.get, hlook]
  have hA : accepted (.complete addr true :: log) = accepted log := by
    simp [accepted_cons, acceptedPacket]
  have hD : delivered (.complete addr true :: log) = delivered log := by
    simp [delivered_cons, deliveredPacket]
  refine ⟨fun a => ?_, fun a => ?_, fun a => ?_, h.noEmptyReads, h.noEmptyWrites.pop _,
    h.nbrReads, ?_⟩
  · rw [hA, hD]
    exact h.reads a
  · rw [hD, List.count_cons_of_ne (by simp)]
    exact h.completed a
  · rw [hA, List.count_cons, h.writes a]
    simp only [DRAMsim3.dropWrite, QueueMap.get_pop]
    by_cases ha : a = addr
    · subst ha
      simp [hget]
      omega
    · simp [ha, Ne.symm ha]
  · have htotal := QueueMap.total_pop (m := d.outstandingWrites) (k := addr) (by simp [hget])
    have hnbr := h.nbrWrites
    simp only [DRAMsim3.dropWrite]
    omega

/-- The peer takes the first response. -/
theorem popResponse (h : Accounted d log) (hqueue : d.responseQueue = pkt :: rest) :
    Accounted d.popResponse (.sendResp pkt true :: log) := by
  have hA : accepted (.sendResp pkt true :: log) = accepted log := by
    simp [accepted_cons, acceptedPacket]
  have hD : delivered (.sendResp pkt true :: log) = delivered log ++ [pkt] := delivered_cons _ _
  have hQ : ∀ a,
      atAddr a (delivered (.sendResp pkt true :: log)) ++ atAddr a d.popResponse.responseQueue =
        atAddr a (delivered log) ++ atAddr a d.responseQueue := by
    intro a
    simp only [hD, DRAMsim3.popResponse, hqueue, atAddr, List.tail_cons, ← List.filter_append,
      List.append_assoc, List.singleton_append]
  refine ⟨fun a => ?_, fun a => ?_, fun a => ?_, h.noEmptyReads, h.noEmptyWrites, h.nbrReads,
    h.nbrWrites⟩
  · rw [hA, hQ, h.reads a]
    rfl
  · rw [List.count_cons_of_ne (by simp), ← List.length_append, hQ, List.length_append]
    exact h.completed a
  · rw [hA, List.count_cons_of_ne (by simp)]
    exact h.writes a

end Accounted

namespace Channel

variable {s s' : Channel}

theorem requests_accounted (h : Accounted s.dram s.log) (rs : List (Packet × Bool)) :
    Accounted (s.requests rs).dram (s.requests rs).log := by
  refine foldl_invariant (fun s : Channel => Accounted s.dram s.log) ?_ h
  rintro s ⟨pkt, accepts⟩ - hs
  obtain ⟨hdram, hlog⟩ := request_dram s pkt accepts
  rw [hdram, hlog]
  cases accepts with
  | true => exact hs.record pkt _
  | false => exact (hs.setRetryReq true).note rfl rfl (by simp)

theorem answered_accounted {pkt : Packet} {rest : List Packet} (h : Accounted s.dram s.log)
    (hqueue : s.dram.responseQueue = pkt :: rest) (rs : List (Packet × Bool)) (taken : Bool) :
    Accounted (answered rs taken pkt s).dram (answered rs taken pkt s).log := by
  have hs := requests_accounted h rs
  have hq := (requests_responseQueue rs s).trans hqueue
  cases taken with
  | true => exact hs.popResponse hq
  | false => exact (hs.setRetryResp true).note rfl rfl (by simp)

/-- Every step keeps the books in agreement with the history. -/
theorem does_accounted {action : DramAction} (h : Accounted s.dram s.log)
    (hdoes : Does s action s') : Accounted s'.dram s'.log := by
  cases hdoes with
  | request pkt accepts => exact requests_accounted h [(pkt, accepts)]
  | @read addr pkt rest hlook hcredit =>
    obtain ⟨hdram, hlog⟩ := accessAndRespond_dram { s with dram := s.dram.dropRead addr } pkt
    simp only [note, hdram, hlog]
    exact h.readComplete hlook hcredit
  | write hlook hcredit => exact h.writeComplete hlook hcredit
  | @tick rs taken q htake hretry =>
    exact requests_accounted (s := note (.retryReq q.curTick)
      { s with queue := q, dram := s.dram.setRetryReq false })
      ((h.setRetryReq false).note rfl rfl (by simp)) rs
  | idleTick htake hretry => exact h
  | @send rs taken q pkt rest htake hretry hqueue =>
    exact answered_accounted (s := { s with queue := q }) h hqueue rs taken
  | @retry rs taken pkt rest hretry hqueue =>
    exact answered_accounted (s := note .respRetry { s with dram := s.dram.setRetryResp false })
      ((h.setRetryResp false).note rfl rfl (by simp)) hqueue rs taken
  | advance hle hhead => exact h

theorem reach_accounted {ok : Channel → DramAction → Prop} (h : Reach (Steps step) ok init s) :
    Accounted s.dram s.log :=
  h.invariant (fun s => Accounted s.dram s.log) Accounted.init fun _ _ _ _ hs _ hstep =>
    does_accounted hs (step_does hstep).2

/-- A report of a transaction that was accepted and not yet reported finds it. -/
theorem report_found (h : Accounted s.dram s.log) {addr : Addr} {isWrite : Bool}
    (hlegal : LegalReport s (.complete addr isWrite)) :
    ∃ pkt rest, (s.dram.outstanding isWrite).lookup addr = some (pkt :: rest) := by
  suffices hne : (s.dram.outstanding isWrite).get addr ≠ [] by
    obtain ⟨pkt, rest, hget⟩ := List.exists_cons_of_ne_nil hne
    exact ⟨pkt, rest, QueueMap.lookup_eq_some_of_get hget⟩
  unfold LegalReport at hlegal
  cases isWrite with
  | true =>
    have hcount : (accepted s.log).countP (fun p => p.addr = addr ∧ p.isWrite = true) =
        writesAt addr (accepted s.log) := by
      simp only [writesAt, and_comm]
    intro hnil
    have hwrites := h.writes addr
    rw [show s.dram.outstandingWrites.get addr = [] from hnil, List.length_nil] at hwrites
    omega
  | false =>
    have hcount : (accepted s.log).countP (fun p => p.addr = addr ∧ p.isWrite = false) =
        (readsAt addr (accepted s.log)).length := by
      simp only [readsAt, List.countP_eq_length_filter, Packet.isRead, Bool.not_eq_true', and_comm]
    intro hnil
    have hreads := congrArg List.length (h.reads addr)
    rw [show s.dram.outstandingReads.get addr = [] from hnil] at hreads
    have hdone := h.completed addr
    simp only [List.length_append, List.length_nil] at hreads
    omega

/-- The callback returns when it finds the transaction and its counter is not zero. -/
theorem complete_returns_iff {addr : Addr} {isWrite : Bool} {pkt : Packet} {rest : List Packet}
    (h : Accounted s.dram s.log)
    (hlook : (s.dram.outstanding isWrite).lookup addr = some (pkt :: rest)) :
    (∃ s', s.complete addr isWrite = .ok s') ↔
      ¬ 2 ^ 32 ∣ (s.dram.outstanding isWrite).total := by
  rw [Nat.dvd_iff_mod_eq_zero]
  cases isWrite with
  | true =>
    have hlook' : s.dram.outstandingWrites.lookup addr = some (pkt :: rest) := hlook
    rw [show s.dram.outstanding true = s.dram.outstandingWrites from rfl, ← h.nbrWrites]
    by_cases hzero : s.dram.nbrOutstandingWrites = 0
    · simp [complete, writeComplete, hlook', hzero, Except.map]
    · simp [complete, writeComplete, hlook', hzero, Except.map]
  | false =>
    have hlook' : s.dram.outstandingReads.lookup addr = some (pkt :: rest) := hlook
    rw [show s.dram.outstanding false = s.dram.outstandingReads from rfl, ← h.nbrReads]
    by_cases hzero : s.dram.nbrOutstandingReads = 0
    · simp [complete, readComplete, hlook', hzero, Except.map]
    · simp [complete, readComplete, hlook', hzero, Except.map]

/-- Every accepted read is outstanding, in the response queue or delivered. -/
theorem count_accepted (h : Accounted s.dram s.log) {pkt : Packet} (hread : pkt.isRead = true) :
    (accepted s.log).count pkt =
      (s.dram.outstandingReads.get pkt.addr).count pkt + s.dram.responseQueue.count pkt +
        (delivered s.log).count pkt := by
  have hreads := congrArg (List.count pkt) (h.reads pkt.addr)
  simp only [readsAt, atAddr, List.count_append] at hreads
  rw [List.count_filter (by simp [hread]), List.count_filter (by simp),
    List.count_filter (by simp)] at hreads
  omega

/-- **Accounting.** In every state of every run in which the memory model reports only accepted
transactions of this object, each at most once: the counters are the total queue lengths modulo
`2 ^ 32`, no queue is empty, a refused request leaves maps, counters and responses alone, every
accepted read is outstanding, waits as a response or was delivered, the reads of an address are
delivered in order of acceptance, and a report finds its transaction, so that the first assert of
`readComplete` and `writeComplete` holds and the second one fails only when the number of
outstanding transactions of that kind is a multiple of `2 ^ 32`. -/
theorem dram_accounting (h : Reach (Steps step) LegalReport init s) :
    s.dram.nbrOutstandingReads = s.dram.outstandingReads.total % 2 ^ 32 ∧
      s.dram.nbrOutstandingWrites = s.dram.outstandingWrites.total % 2 ^ 32 ∧
      s.dram.outstandingReads.NoEmpty ∧ s.dram.outstandingWrites.NoEmpty ∧
      (∀ pkt, (s.request (pkt, false)).dram = s.dram.setRetryReq true) ∧
      (∀ pkt, pkt.isRead = true → (accepted s.log).count pkt =
        (s.dram.outstandingReads.get pkt.addr).count pkt + s.dram.responseQueue.count pkt +
          (delivered s.log).count pkt) ∧
      (∀ addr, ∀ pkt ∈ s.dram.outstandingReads.get addr, pkt.isRead = true ∧ pkt.addr = addr) ∧
      (∀ addr, atAddr addr (delivered s.log) <+: readsAt addr (accepted s.log)) ∧
      ∀ addr isWrite, LegalReport s (.complete addr isWrite) →
        (∃ pkt rest, (s.dram.outstanding isWrite).lookup addr = some (pkt :: rest)) ∧
        ((∃ s', s.complete addr isWrite = .ok s') ↔
          ¬ 2 ^ 32 ∣ (s.dram.outstanding isWrite).total) := by
  have ha := reach_accounted h
  refine ⟨ha.nbrReads, ha.nbrWrites, ha.noEmptyReads, ha.noEmptyWrites,
    fun pkt => (request_dram s pkt false).1, fun pkt hread => count_accepted ha hread, ?_, ?_, ?_⟩
  · intro addr pkt hmem
    have hacc : pkt ∈ readsAt addr (accepted s.log) := by simp [ha.reads addr, hmem]
    simpa using (List.mem_filter.mp hacc).2
  · intro addr
    rw [ha.reads addr, List.append_assoc]
    exact List.prefix_append _ _
  · intro addr isWrite hlegal
    obtain ⟨pkt, rest, hlook⟩ := report_found ha hlegal
    exact ⟨⟨pkt, rest, hlook⟩, complete_returns_iff ha hlook⟩

/-- Of two reads of one address the first is reported and delivered. -/
theorem dram_accounting_two_reads :
    ∃ s, Reach (Steps step) LegalReport init s ∧ delivered s.log = [⟨0, 64, false⟩] ∧
      accepted s.log = [⟨0, 64, false⟩, ⟨1, 64, false⟩] ∧
      atAddr 64 (delivered s.log) <+: readsAt 64 (accepted s.log) := by
  obtain ⟨s, hs, hp⟩ := Reach.of_run step LegalReport init
    [.request ⟨0, 64, false⟩ true, .request ⟨1, 64, false⟩ true, .complete 64 false,
      .serviceOne [] true]
    (fun s => delivered s.log = [⟨0, 64, false⟩] ∧
      accepted s.log = [⟨0, 64, false⟩, ⟨1, 64, false⟩]) (by decide +kernel)
  obtain ⟨hdel, hacc⟩ := of_decide_eq_true hp
  exact ⟨s, hs, hdel, hacc, (dram_accounting hs).2.2.2.2.2.2.2.1 64⟩

/-- The same read is accepted again and again. -/
theorem reach_many_reads (pkt : Packet) (hread : pkt.isWrite = false) (n : Nat) :
    ∃ s, Reach (Steps step) LegalReport init s ∧ s.failed = false ∧
      s.dram.outstandingReads.total = n := by
  induction n with
  | zero => exact ⟨init, .start, rfl, rfl⟩
  | succ n ih =>
    obtain ⟨s, hs, hrun, htotal⟩ := ih
    refine ⟨s.request (pkt, true), .next (.request pkt true) hs trivial ?_, hrun, ?_⟩
    · simp [Steps, step, hrun]
    · rw [request_accepted]
      simp only [DRAMsim3.record, hread, Bool.not_false, if_true, QueueMap.total_push, htotal]

/-- The counter of the reads wraps around. -/
theorem dram_counter_wraps :
    ¬ ∀ s, Reach (Steps step) LegalReport init s →
      s.dram.nbrOutstandingReads = s.dram.outstandingReads.total := by
  intro h
  obtain ⟨s, hs, -, htotal⟩ := reach_many_reads ⟨0, 0, false⟩ rfl (2 ^ 32)
  have hnbr := (reach_accounted hs).nbrReads
  rw [h s hs, htotal] at hnbr
  omega

end Channel

end NetSim.Dram
