import Mathlib.Data.List.Perm.Subperm
import NetSim.Arbiter.Credit
import NetSim.Arbiter.IssueOrder
import NetSim.Arbiter.Routing

/-!
# The bookkeeping of the arbiter

An accepted read holds one credit of its bank while it waits in an input buffer, while it is with
the downstream and while its response is queued. The records of a bank, two maps of queues and a
counter, are compared with the buffers and with what the log says was sent and answered. When the
downstream answers only what was sent, every answer finds a record.
-/

namespace NetSim.Arbiter

open Common Library Relation

/-! ## Reads of a bank in the log -/

def PortEvent.sentOn (bank : Bank) : PortEvent → Option Packet
  | .sendReq b pkt true => if b = bank ∧ pkt.isRead then some pkt else none
  | _ => none

def PortEvent.answeredOn (bank : Bank) : PortEvent → Option Packet
  | .response b pkt => if b = bank then some pkt else none
  | _ => none

/-- The reads that were sent on `requestPorts[bank]`. -/
def sentOn (bank : Bank) (log : Log) : List Packet := log.filterMap (PortEvent.sentOn bank)

/-- The answers that came back on `bank`. -/
def answeredOn (bank : Bank) (log : Log) : List Packet :=
  log.filterMap (PortEvent.answeredOn bank)

theorem sentOn_cons (bank : Bank) (e : PortEvent) (log : Log) :
    sentOn bank (e :: log) = (e.sentOn bank).toList ++ sentOn bank log := by
  cases h : e.sentOn bank <;> simp [sentOn, h]

theorem answeredOn_cons (bank : Bank) (e : PortEvent) (log : Log) :
    answeredOn bank (e :: log) = (e.answeredOn bank).toList ++ answeredOn bank log := by
  cases h : e.answeredOn bank <;> simp [answeredOn, h]

/-- The reads of one address among those sent. -/
theorem length_sentAt (bank : Bank) (addr : Addr) (log : Log) :
    (sentAt bank addr log).length = ((sentOn bank log).map Packet.addr).count addr := by
  induction log with
  | nil => rfl
  | cons e log ih =>
    rw [sentAt, sentOn_cons, List.length_append, ih, List.map_append, List.count_append]
    cases e with
    | sendReq b pkt taken =>
      cases taken with
      | false => simp [PortEvent.sentAt, PortEvent.sentOn]
      | true =>
        by_cases hread : b = bank ∧ pkt.isRead = true
        · by_cases haddr : pkt.addr = addr
          · simp [PortEvent.sentAt, PortEvent.sentOn, hread, haddr]
            omega
          · simp [PortEvent.sentAt, PortEvent.sentOn, hread, haddr]
        · have hsent : ¬ (b = bank ∧ pkt.addr = addr ∧ pkt.isRead = true) := fun h =>
            hread ⟨h.1, h.2.2⟩
          simp [PortEvent.sentAt, PortEvent.sentOn, hread, hsent]
    | _ => simp [PortEvent.sentAt, PortEvent.sentOn]

/-- The answers of one address. -/
theorem answeredAt_eq (bank : Bank) (addr : Addr) (log : Log) :
    answeredAt bank addr log = ((answeredOn bank log).map Packet.addr).count addr := by
  induction log with
  | nil => rfl
  | cons e log ih =>
    rw [answeredOn_cons, List.map_append, List.count_append]
    cases e with
    | response b pkt =>
      rw [answeredAt, ih]
      by_cases hb : b = bank
      · by_cases haddr : pkt.addr = addr
        · simp [PortEvent.answeredOn, hb, haddr]
          omega
        · simp [PortEvent.answeredOn, hb, haddr]
      · simp [PortEvent.answeredOn, hb]
    | _ => simpa [answeredAt, PortEvent.answeredOn] using ih

/-! ## Where the reads of a bank are -/

/-- The number of reads in the input buffers of `bank`. -/
def bufferedReads (c : Config) (a : DramArb) (bank : Bank) : Nat :=
  ∑ up ∈ Finset.range c.numUpstreams, (a.readInBufs bank up).length

/-- Every record is that of a read in a buffer or of a read that was sent and is not answered. -/
def Flow (c : Config) (s : Core) : Prop :=
  ∀ bank, (s.arb.outstandingReads bank).total + (answeredOn bank s.log).length =
    bufferedReads c s.arb bank + (sentOn bank s.log).length

variable {c : Config} {s s' : Core} {bank : Bank} {up : Nat} {pkt : Packet}

theorem flow_init : Flow c Core.init := by
  intro bank
  simp [Core.init, DramArb.init, bufferedReads, answeredOn, sentOn, QueueMap.total]

theorem bufferedReads_pushInBuf {a : DramArb} (hup : up < c.numUpstreams) (b : Bank) :
    bufferedReads c (a.pushInBuf .read bank up pkt) b =
      bufferedReads c a b + if b = bank then 1 else 0 := by
  refine sum_eq_add_of_single (Finset.mem_range.mpr hup) ?_ fun u hu => ?_
  · by_cases hb : b = bank
    · simp [DramArb.pushInBuf_inBufs, hb]
    · simp [DramArb.pushInBuf_inBufs, hb]
  · simp [DramArb.pushInBuf_inBufs, hu]

theorem bufferedReads_popInBuf {a : DramArb} {rest : List Packet} (hup : up < c.numUpstreams)
    (hhead : a.inBufs .read bank up = pkt :: rest) (b : Bank) :
    bufferedReads c a b =
      bufferedReads c (a.popInBuf c .read bank up) b + if b = bank then 1 else 0 := by
  refine sum_eq_add_of_single (Finset.mem_range.mpr hup) ?_ fun u hu => ?_
  · by_cases hb : b = bank
    · subst hb
      simp [DramArb.popInBuf_inBufs, hhead]
    · simp [DramArb.popInBuf_inBufs, hb]
  · simp [DramArb.popInBuf_inBufs, hu]

/-- A move that touches no read buffer and no record, and sends and answers no read. -/
theorem Flow.frame (h : Flow c s) (hbufs : s'.arb.inBufs .read = s.arb.inBufs .read)
    (hreads : s'.arb.outstandingReads = s.arb.outstandingReads)
    (hsent : ∀ bank, sentOn bank s'.log = sentOn bank s.log)
    (hanswered : ∀ bank, answeredOn bank s'.log = answeredOn bank s.log) : Flow c s' := by
  intro bank
  rw [hreads, hsent, hanswered, bufferedReads, DramArb.readInBufs, hbufs]
  exact h bank

theorem Flow.acceptRead {a : DramArb} {log : Log} (h : Flow c ⟨a, log⟩)
    (hup : up < c.numUpstreams) (arbEvent : Bool) :
    Flow c ⟨{ (a.pushInBuf .read bank up pkt).recordRead bank up pkt with arbEvent := arbEvent },
      .request bank up pkt true :: log⟩ := by
  intro b
  have hb := h b
  have hpush : bufferedReads c (a.pushInBuf .read bank up pkt) b = _ :=
    bufferedReads_pushInBuf hup b
  have hbuf : bufferedReads c { (a.pushInBuf .read bank up pkt).recordRead bank up pkt with
      arbEvent := arbEvent } b = bufferedReads c (a.pushInBuf .read bank up pkt) b := rfl
  simp only [sentOn_cons, answeredOn_cons, PortEvent.sentOn, PortEvent.answeredOn,
    Option.toList_none, List.nil_append, hbuf] at hb ⊢
  by_cases hbank : b = bank
  · subst hbank
    simp only [DramArb.recordRead, DramArb.pushInBuf, Function.update_self, QueueMap.total_push,
      if_true] at hpush ⊢
    omega
  · simp only [DramArb.recordRead, DramArb.pushInBuf, Function.update_of_ne hbank, hbank,
      if_false] at hpush ⊢
    omega

theorem Flow.sendRead {a : DramArb} {log : Log} {rest : List Packet} (h : Flow c ⟨a, log⟩)
    (hup : up < c.numUpstreams) (hhead : a.inBufs .read bank up = pkt :: rest)
    (hread : pkt.isRead = true) :
    Flow c ⟨a.popInBuf c .read bank up, .sendReq bank pkt true :: log⟩ := by
  intro b
  have hb := h b
  have hpop := bufferedReads_popInBuf hup hhead b
  simp only [sentOn_cons, answeredOn_cons, PortEvent.sentOn, PortEvent.answeredOn,
    Option.toList_none, List.nil_append, hread, and_true] at hb ⊢
  by_cases hbank : b = bank
  · subst hbank
    simp only [if_true, Option.toList_some, List.length_append, List.length_singleton] at hpop ⊢
    simp only [DramArb.popInBuf] at hpop ⊢
    omega
  · simp only [Ne.symm hbank, hbank, if_false, Option.toList_none, List.nil_append] at hpop ⊢
    simp only [DramArb.popInBuf] at hpop ⊢
    omega

theorem Flow.response {a : DramArb} {log : Log} {resPkt : Packet} {reads : List Packet}
    (h : Flow c ⟨a, log⟩) (hread : (a.outstandingReads bank).get pkt.addr = resPkt :: reads) :
    Flow c ⟨(a.dropRecord bank pkt.addr).pushResponse bank resPkt up,
      .response bank pkt :: log⟩ := by
  intro b
  have hb := h b
  have htotal := QueueMap.total_pop (m := a.outstandingReads bank) (k := pkt.addr)
    (by simp [hread])
  have hbuf : bufferedReads c ((a.dropRecord bank pkt.addr).pushResponse bank resPkt up) b =
      bufferedReads c a b := rfl
  simp only [sentOn_cons, answeredOn_cons, PortEvent.sentOn, PortEvent.answeredOn,
    Option.toList_none, List.nil_append, hbuf] at hb ⊢
  by_cases hbank : b = bank
  · subst hbank
    simp only [DramArb.dropRecord, DramArb.pushResponse, Function.update_self, if_true,
      Option.toList_some, List.length_append, List.length_singleton] at hb ⊢
    omega
  · simp only [DramArb.dropRecord, DramArb.pushResponse, Function.update_of_ne hbank,
      Ne.symm hbank, if_false, Option.toList_none, List.nil_append] at hb ⊢
    exact hb

theorem Flow.respMove (h : Flow c s) (hmove : RespMove c s s') : Flow c s' := by
  cases hmove with
  | requested hreq =>
    cases hreq with
    | accept hup hacc =>
      obtain ⟨-, -, rfl⟩ | ⟨-, -, rfl⟩ := acceptRequest_cases hacc
      · exact h.acceptRead hup true
      · exact h.frame (by simp [DramArb.pushInBuf]) rfl (fun _ => rfl) (fun _ => rfl)
    | refuse => exact h.frame rfl rfl (fun _ => rfl) (fun _ => rfl)
  | delivered => exact h.frame rfl rfl (fun _ => rfl) (fun _ => rfl)
  | bounced => exact h.frame rfl rfl (fun _ => rfl) (fun _ => rfl)
  | retried => exact h.frame rfl rfl (fun _ => rfl) (fun _ => rfl)
  | cleared => exact h.frame rfl rfl (fun _ => rfl) (fun _ => rfl)
  | event => exact h.frame rfl rfl (fun _ => rfl) (fun _ => rfl)

theorem Flow.arbMove (hledger : Ledger c s) (h : Flow c s) (hmove : ArbMove c s s') :
    Flow c s' := by
  cases hmove with
  | @offered _ _ b hoffer =>
    cases hoffer with
    | refused => exact h.frame rfl rfl (fun _ => rfl) (fun _ => rfl)
    | @taken a log kind up pkt rest hup hhead =>
      have hkind := hledger.kinds kind b up pkt (by simp [hhead])
      cases kind with
      | read => exact h.sendRead hup hhead (hkind.mpr rfl)
      | write =>
        have hwrite : pkt.isRead = false := by simpa using hkind
        refine h.frame (by simp [DramArb.popInBuf]) rfl (fun b => ?_) (fun _ => rfl)
        simp [sentOn_cons, PortEvent.sentOn, hwrite]
  | event => exact h.frame rfl rfl (fun _ => rfl) (fun _ => rfl)

theorem Flow.move (hledger : Ledger c s) (h : Flow c s) (hmove : Move c s s') : Flow c s' := by
  cases hmove with
  | resp hmove => exact h.respMove hmove
  | arb hmove => exact h.arbMove hledger hmove
  | response hread hcredit hup => exact h.response hread
  | respRetry => exact h.frame rfl rfl (fun _ => rfl) (fun _ => rfl)
  | reqRetry => exact h.frame rfl rfl (fun _ => rfl) (fun _ => rfl)

/-! ## The records and the write buffers -/

/-- No queue of a map is empty, the counter is the number of records modulo `2 ^ 32`, and no write
buffer holds more than the limit. -/
structure Tidy (c : Config) (s : Core) : Prop where
  reads : ∀ bank, (s.arb.outstandingReads bank).NoEmpty
  upstreams : ∀ bank, (s.arb.outstandingUpstream bank).NoEmpty
  counter : ∀ bank,
    s.arb.nbrOutstandingReads bank = (s.arb.outstandingReads bank).total % 2 ^ 32
  writes : ∀ bank up, (s.arb.writeInBufs bank up).length ≤ c.limit

theorem tidy_init : Tidy c Core.init where
  reads := fun _ => QueueMap.noEmpty_empty
  upstreams := fun _ => QueueMap.noEmpty_empty
  counter := fun _ => rfl
  writes := fun _ _ => Nat.zero_le _

theorem Tidy.frame (h : Tidy c s) (hreads : s'.arb.outstandingReads = s.arb.outstandingReads)
    (hups : s'.arb.outstandingUpstream = s.arb.outstandingUpstream)
    (hcounter : s'.arb.nbrOutstandingReads = s.arb.nbrOutstandingReads)
    (hwrites : ∀ bank up, (s'.arb.writeInBufs bank up).length ≤ c.limit) : Tidy c s' where
  reads := by
    rw [hreads]
    exact h.reads
  upstreams := by
    rw [hups]
    exact h.upstreams
  counter := by
    rw [hcounter, hreads]
    exact h.counter
  writes := hwrites

theorem Tidy.acceptRead {a : DramArb} {log log' : Log} (h : Tidy c ⟨a, log⟩) (arbEvent : Bool) :
    Tidy c ⟨{ (a.pushInBuf .read bank up pkt).recordRead bank up pkt with arbEvent := arbEvent },
      log'⟩ := by
  refine ⟨fun b => ?_, fun b => ?_, fun b => ?_, fun b u => ?_⟩
  · have hb := h.reads b
    by_cases hbank : b = bank
    · subst hbank
      simpa [DramArb.recordRead, DramArb.pushInBuf] using hb.push pkt.addr pkt
    · simpa [DramArb.recordRead, DramArb.pushInBuf, hbank] using hb
  · have hb := h.upstreams b
    by_cases hbank : b = bank
    · subst hbank
      simpa [DramArb.recordRead, DramArb.pushInBuf] using hb.push pkt.addr up
    · simpa [DramArb.recordRead, DramArb.pushInBuf, hbank] using hb
  · have hb := h.counter b
    by_cases hbank : b = bank
    · subst hbank
      simp only [DramArb.recordRead, DramArb.pushInBuf, Function.update_self,
        QueueMap.total_push] at hb ⊢
      omega
    · simpa [DramArb.recordRead, DramArb.pushInBuf, hbank] using hb
  · have hwrites := h.writes b u
    simpa [DramArb.recordRead, DramArb.pushInBuf] using hwrites

theorem Tidy.acceptWrite {a : DramArb} {log log' : Log} (h : Tidy c ⟨a, log⟩)
    (hroom : (a.writeInBufs bank up).length < c.limit) (arbEvent : Bool) :
    Tidy c ⟨{ a.pushInBuf .write bank up pkt with arbEvent := arbEvent }, log'⟩ := by
  refine h.frame rfl rfl rfl fun b u => ?_
  have hwrites := h.writes b u
  simp only [DramArb.writeInBufs, DramArb.pushInBuf_inBufs] at hroom hwrites ⊢
  split
  · rename_i hif
    obtain ⟨-, rfl, rfl⟩ := hif
    simp only [List.length_append, List.length_singleton]
    omega
  · exact hwrites

theorem Tidy.response {a : DramArb} {log log' : Log} {resPkt : Packet} {reads : List Packet}
    (h : Tidy c ⟨a, log⟩) (hread : (a.outstandingReads bank).get pkt.addr = resPkt :: reads)
    (hcredit : a.nbrOutstandingReads bank ≠ 0) :
    Tidy c ⟨(a.dropRecord bank pkt.addr).pushResponse bank resPkt up, log'⟩ := by
  have htotal := QueueMap.total_pop (m := a.outstandingReads bank) (k := pkt.addr)
    (by simp [hread])
  refine ⟨fun b => ?_, fun b => ?_, fun b => ?_, h.writes⟩
  · have hb := h.reads b
    by_cases hbank : b = bank
    · subst hbank
      simpa [DramArb.dropRecord, DramArb.pushResponse] using hb.pop pkt.addr
    · simpa [DramArb.dropRecord, DramArb.pushResponse, hbank] using hb
  · have hb := h.upstreams b
    by_cases hbank : b = bank
    · subst hbank
      simpa [DramArb.dropRecord, DramArb.pushResponse] using hb.pop pkt.addr
    · simpa [DramArb.dropRecord, DramArb.pushResponse, hbank] using hb
  · have hb := h.counter b
    by_cases hbank : b = bank
    · subst hbank
      simp only [DramArb.dropRecord, DramArb.pushResponse, Function.update_self] at hb ⊢
      omega
    · simpa [DramArb.dropRecord, DramArb.pushResponse, hbank] using hb

theorem Tidy.move (h : Tidy c s) (hmove : Move c s s') : Tidy c s' := by
  cases hmove with
  | resp hmove =>
    cases hmove with
    | requested hreq =>
      cases hreq with
      | accept hup hacc =>
        obtain ⟨-, -, rfl⟩ | ⟨-, hroom, rfl⟩ := acceptRequest_cases hacc
        · exact h.acceptRead true
        · exact h.acceptWrite hroom true
      | refuse => exact h.frame rfl rfl rfl h.writes
    | delivered => exact h.frame rfl rfl rfl h.writes
    | bounced => exact h.frame rfl rfl rfl h.writes
    | retried => exact h.frame rfl rfl rfl h.writes
    | cleared => exact h.frame rfl rfl rfl h.writes
    | event => exact h.frame rfl rfl rfl h.writes
  | arb hmove =>
    cases hmove with
    | offered hoffer =>
      cases hoffer with
      | refused => exact h.frame rfl rfl rfl h.writes
      | taken =>
        refine h.frame rfl rfl rfl fun b u => ?_
        have hwrites := h.writes b u
        simp only [DramArb.writeInBufs, DramArb.popInBuf_inBufs] at hwrites ⊢
        split
        · rw [List.length_tail]
          omega
        · exact hwrites
    | event => exact h.frame rfl rfl rfl h.writes
  | response hread hcredit hup => exact h.response hread hcredit
  | respRetry => exact h.frame rfl rfl rfl h.writes
  | reqRetry => exact h.frame rfl rfl rfl h.writes

/-! ## Answers -/

/-- No more reads of an address were answered than sent. -/
def Answerable (log : Log) : Prop :=
  ∀ bank addr, answeredAt bank addr log ≤ (sentAt bank addr log).length

theorem Answerable.quiet {log : Log} {e : PortEvent} (h : Answerable log)
    (he : ∀ b x, answeredAt b x (e :: log) = answeredAt b x log) : Answerable (e :: log) := by
  intro b x
  rw [he, sentAt, List.length_append]
  exact (h b x).trans (Nat.le_add_right _ _)

theorem RespMove.answerable (hmove : RespMove c s s') (h : Answerable s.log) :
    Answerable s'.log := by
  cases hmove with
  | requested hreq =>
    cases hreq with
    | accept => exact h.quiet fun _ _ => rfl
    | refuse => exact h.quiet fun _ _ => rfl
  | delivered => exact h.quiet fun _ _ => rfl
  | bounced => exact h.quiet fun _ _ => rfl
  | retried => exact h.quiet fun _ _ => rfl
  | cleared => exact h
  | event => exact h

theorem ArbMove.answerable (hmove : ArbMove c s s') (h : Answerable s.log) :
    Answerable s'.log := by
  cases hmove with
  | offered hoffer =>
    cases hoffer with
    | refused => exact h.quiet fun _ _ => rfl
    | taken => exact h.quiet fun _ _ => rfl
  | event => exact h

variable {δ : Type} {P : Peers c.numUpstreams δ} {w w' : World δ}

theorem step_answerable {action : Action c.numUpstreams δ} (h : Answerable w.log)
    (hok : LegalAnswer c w action) (hstep : step c P w action = some w') :
    Answerable w'.log := by
  cases action with
  | request bank up pkt =>
    cases hstep
    have hreq : Requested c w.toCore (recvTimingReqUp c P pkt bank up w).2.toCore :=
      recvTimingReqUp_requested up.isLt w
    exact (RespMove.requested hreq).answerable h
  | arbitrate =>
    obtain ⟨-, rfl⟩ := step_arbitrate hstep
    exact star_invariant (I := fun t => Answerable t.log) (fun _ _ => ArbMove.answerable)
      (arbitrate_moves w.clearArbEvent) h
  | sendResponse =>
    obtain ⟨-, rfl⟩ := step_sendResponse hstep
    exact star_invariant (I := fun t => Answerable t.log) (fun _ _ => RespMove.answerable)
      (sendResponse_moves w.clearSendResponseEvent) h
  | response bank pkt =>
    obtain ⟨resPkt, reads, up, ups, -, -, -, rfl⟩ := recvTimingResp_cases (step_response hstep)
    rw [accessAndRespond, scheduleSendResponseEvent_core]
    exact answeredAt_response_le h hok
  | reqRetry bank =>
    cases hstep
    rw [handleReqRetry, scheduleArbEvent_core]
    exact h.quiet fun _ _ => rfl
  | respRetry bank up =>
    cases hstep
    exact star_invariant (I := fun t => Answerable t.log) (fun _ _ => RespMove.answerable)
      (sendResponse_moves (w.clearRetryResp bank up)) (h.quiet fun _ _ => rfl)
  | rest d =>
    cases hstep
    exact h

theorem reach_answerable {d : δ}
    (h : Reach (Steps (step c P)) (LegalAnswer c) (World.init d) w) : Answerable w.log :=
  h.invariant (fun v : World δ => Answerable v.log) (fun _ _ => Nat.le_refl _)
    fun _ _ _ _ hv hok hstep => step_answerable hv hok hstep

/-- No more reads of a bank were answered than sent. -/
theorem Answerable.length_le {log : Log} (h : Answerable log) (bank : Bank) :
    (answeredOn bank log).length ≤ (sentOn bank log).length := by
  have hsub : ((answeredOn bank log).map Packet.addr).Subperm
      ((sentOn bank log).map Packet.addr) := by
    rw [List.subperm_ext_iff]
    intro addr _
    rw [← answeredAt_eq, ← length_sentAt]
    exact h bank addr
  simpa using hsub.length_le

/-- **Read credit.** For `buf_size` at least zero and a downstream that answers each sent read at
most once, in every state of every run and for every bank: the counter and the response queue
together stay within `buf_size`, so does every write buffer, and the counter is the number of reads
in the input buffers and of reads that were sent and are not yet answered. -/
theorem read_credit_conserved (hbuf : 0 ≤ c.bufSize) {d : δ}
    (h : Reach (Steps (step c P)) (LegalAnswer c) (World.init d) w) (bank : Bank) :
    ((w.arb.nbrOutstandingReads bank + (w.arb.responseQueue bank).length : Nat) : Int) ≤
        c.bufSize ∧
      (∀ up, ((w.arb.writeInBufs bank up).length : Int) ≤ c.bufSize) ∧
      (answeredOn bank w.log).length ≤ (sentOn bank w.log).length ∧
      w.arb.nbrOutstandingReads bank = bufferedReads c w.arb bank +
        ((sentOn bank w.log).length - (answeredOn bank w.log).length) := by
  have hcredit : Credit c w.toCore :=
    reach_invariant credit_init (fun _ _ m hs => Credit.move hbuf hs m) h
  have htidy : Tidy c w.toCore := reach_invariant tidy_init (fun _ _ m hs => hs.move m) h
  have hflow : Ledger c w.toCore ∧ Flow c w.toCore :=
    reach_invariant (I := fun s => Ledger c s ∧ Flow c s) ⟨ledger_init, flow_init⟩
      (fun _ _ m hs => ⟨hs.1.move m, hs.2.move hs.1 m⟩) h
  have hlimit := Config.limit_of_nonneg hbuf
  have hle := (reach_answerable h).length_le bank
  have hbound := hcredit.bound bank
  have hcount := hcredit.count bank
  have hbalance := hflow.2 bank
  refine ⟨?_, fun up => ?_, hle, ?_⟩
  · rw [← hlimit]
    exact_mod_cast hbound
  · rw [← hlimit]
    exact_mod_cast htidy.writes bank up
  · omega

/-- One read that was sent and is not yet answered. -/
theorem read_credit_conserved_in_flight :
    ∃ w, Reach (Steps (step (Config.small 1 0) (Peers.constant true true))) (LegalAnswer _)
        (World.init ()) w ∧
      (sentOn 0 w.log).length = 1 ∧
      w.arb.nbrOutstandingReads 0 = bufferedReads (Config.small 1 0) w.arb 0 +
        ((sentOn 0 w.log).length - (answeredOn 0 w.log).length) := by
  obtain ⟨w, hw, hp⟩ := Reach.of_run (step (Config.small 1 0) (Peers.constant true true))
    (LegalAnswer _) (World.init ()) [.request 0 0 ⟨0, 64, false⟩, .arbitrate]
    (fun w => (sentOn 0 w.log).length = 1) (by decide +kernel)
  exact ⟨w, hw, of_decide_eq_true hp, (read_credit_conserved (by decide) hw 0).2.2.2⟩

/-! ## The records and the asserts -/

theorem mem_sentAt {addr : Addr} {log : Log} (h : pkt ∈ sentAt bank addr log) :
    pkt.addr = addr ∧ pkt.isRead = true := by
  induction log with
  | nil => cases h
  | cons e log ih =>
    rcases List.mem_append.mp h with h | h
    · exact ih h
    · unfold PortEvent.sentAt at h
      split at h
      · split at h
        · rename_i hif
          rw [List.mem_singleton.mp h]
          exact hif.2
        · cases h
      · cases h

/-- No more reads of an address were sent than accepted. -/
theorem Ledger.sent_le (h : Ledger c s) (bank : Bank) (addr : Addr) :
    (sentAt bank addr s.log).length ≤ (acceptedAt bank addr s.log).length := by
  have hsub : (sentAt bank addr s.log).Subperm (acceptedAt bank addr s.log) := by
    rw [List.subperm_ext_iff]
    intro pkt hpkt
    obtain ⟨rfl, hread⟩ := mem_sentAt hpkt
    rw [h.waits bank pkt hread]
    exact Nat.le_add_right _ _
  exact hsub.length_le

/-- A legal answer finds a record in both maps. -/
theorem answer_found {d : δ} (h : Reach (Steps (step c P)) (LegalAnswer c) (World.init d) w)
    (hlegal : LegalAnswer c w (.response bank pkt)) :
    ∃ resPkt reads up ups, (w.arb.outstandingReads bank).lookup pkt.addr = some (resPkt :: reads) ∧
      (w.arb.outstandingUpstream bank).get pkt.addr = up :: ups := by
  have hledger : Ledger c w.toCore := reach_invariant ledger_init (fun _ _ m hs => hs.move m) h
  have hrouted : Routed w.toCore := reach_invariant routed_init (fun _ _ m hs => hs.move m) h
  have hlength : 0 < ((w.arb.outstandingReads bank).get pkt.addr).length := by
    have hanswered : answeredAt bank pkt.addr w.log < (sentAt bank pkt.addr w.log).length := hlegal
    have hsent := hledger.sent_le bank pkt.addr
    rw [hledger.records bank pkt.addr, List.length_drop]
    omega
  obtain ⟨resPkt, reads, hreads⟩ := List.exists_cons_of_length_pos hlength
  rw [hrouted.lockstep bank pkt.addr] at hlength
  obtain ⟨up, ups, hups⟩ := List.exists_cons_of_length_pos hlength
  exact ⟨resPkt, reads, up, ups, QueueMap.lookup_eq_some_of_get hreads, hups⟩

/-- **Bookkeeping.** In every state of every run and for every bank, the two maps have the same
keys, hold no empty queue and have queues of equal length, and the counter is the number of records
modulo `2 ^ 32`, which for `buf_size` at least zero is the number itself. In a run in which the
downstream answers only sent reads, each at most once, every further such answer passes all asserts,
except that for a negative `buf_size` the counter may be zero at a multiple of `2 ^ 32` records. -/
theorem arbiter_bookkeeping {d : δ} (h : Reach (Steps (step c P)) Free (World.init d) w)
    (bank : Bank) :
    (∀ addr, (w.arb.outstandingReads bank).lookup addr = none ↔
        (w.arb.outstandingUpstream bank).lookup addr = none) ∧
      (w.arb.outstandingReads bank).NoEmpty ∧ (w.arb.outstandingUpstream bank).NoEmpty ∧
      (∀ addr, ((w.arb.outstandingReads bank).get addr).length =
        ((w.arb.outstandingUpstream bank).get addr).length) ∧
      w.arb.nbrOutstandingReads bank = (w.arb.outstandingReads bank).total % 2 ^ 32 ∧
      (0 ≤ c.bufSize → w.arb.nbrOutstandingReads bank = (w.arb.outstandingReads bank).total) ∧
      (Reach (Steps (step c P)) (LegalAnswer c) (World.init d) w →
        ∀ pkt, LegalAnswer c w (.response bank pkt) →
          (∃ w', recvTimingResp c P pkt bank w = .ok w') ∨
          (c.bufSize < 0 ∧ 2 ^ 32 ∣ (w.arb.outstandingReads bank).total ∧
            recvTimingResp c P pkt bank w = .error .noReadCredit)) := by
  have htidy : Tidy c w.toCore := reach_invariant tidy_init (fun _ _ m hs => hs.move m) h
  have hrouted : Routed w.toCore := reach_invariant routed_init (fun _ _ m hs => hs.move m) h
  have hexact : 0 ≤ c.bufSize →
      w.arb.nbrOutstandingReads bank = (w.arb.outstandingReads bank).total := fun hbuf =>
    (reach_invariant credit_init (fun _ _ m hs => Credit.move hbuf hs m) h :
      Credit c w.toCore).count bank
  refine ⟨fun addr => ?_, htidy.reads bank, htidy.upstreams bank, hrouted.lockstep bank,
    htidy.counter bank, hexact, fun hlegalRun pkt hlegal => ?_⟩
  · rw [← QueueMap.get_eq_nil_iff (htidy.reads bank),
      ← QueueMap.get_eq_nil_iff (htidy.upstreams bank), ← List.length_eq_zero_iff,
      ← List.length_eq_zero_iff, hrouted.lockstep bank addr]
  · obtain ⟨resPkt, reads, up, ups, hlook, hups⟩ := answer_found hlegalRun hlegal
    by_cases hzero : w.arb.nbrOutstandingReads bank = 0
    · have htotal : 0 < (w.arb.outstandingReads bank).total := by
        have hget : (w.arb.outstandingReads bank).get pkt.addr = resPkt :: reads := by
          rw [QueueMap.get, hlook, Option.getD_some]
        have hpop := QueueMap.total_pop (m := w.arb.outstandingReads bank) (k := pkt.addr)
          (by simp [hget])
        omega
      refine Or.inr ⟨?_, ?_, by simp [recvTimingResp, hlook, hzero]⟩
      · by_contra hbuf
        have hcount := hexact (by omega)
        omega
      · rw [Nat.dvd_iff_mod_eq_zero, ← htidy.counter bank]
        exact hzero
    · exact Or.inl ⟨_, by simp only [recvTimingResp, hlook, hzero, hups, if_false]; rfl⟩

/-- The records of two reads of one address. -/
theorem arbiter_bookkeeping_two_reads :
    ∃ w, Reach (Steps (step (Config.small 2 1) (Peers.constant true true))) Free
        (World.init ()) w ∧
      (w.arb.outstandingReads 0).get 64 = [⟨1, 64, false⟩, ⟨0, 64, false⟩] ∧
      ((w.arb.outstandingReads 0).get 64).length =
        ((w.arb.outstandingUpstream 0).get 64).length := by
  obtain ⟨w, hw, hp⟩ := Reach.of_run (step (Config.small 2 1) (Peers.constant true true)) Free
    (World.init ()) [.request 0 1 ⟨1, 64, false⟩, .request 0 0 ⟨0, 64, false⟩]
    (fun w => (w.arb.outstandingReads 0).get 64 = [⟨1, 64, false⟩, ⟨0, 64, false⟩])
    (by decide +kernel)
  exact ⟨w, hw, of_decide_eq_true hp, (arbiter_bookkeeping hw 0).2.2.2.1 64⟩

/-- An arbiter whose `buf_size` is `-1`. -/
def Config.unbounded : Config where
  bufSize := -1
  numUpstreams := 1
  bufSize_int := by omega
  numUpstreams_pos := by omega
  numUpstreams_le := by decide

/-- A negative `buf_size` is no bound: reads are accepted again and again. -/
theorem reach_accepted_reads (pkt : Packet) (hread : pkt.isRead = true) (n : Nat) :
    ∃ w, Reach (Steps (step Config.unbounded (Peers.constant true true))) Free (World.init ()) w ∧
      w.arb.responseQueue 0 = [] ∧ (w.arb.outstandingReads 0).total = n := by
  induction n with
  | zero => exact ⟨World.init (), .start, rfl, rfl⟩
  | succ n ih =>
    obtain ⟨w, hw, hqueue, htotal⟩ := ih
    have htidy : Tidy Config.unbounded w.toCore :=
      reach_invariant tidy_init (fun _ _ m hs => hs.move m) hw
    have hcounter := htidy.counter 0
    have hlimit : Config.unbounded.limit = 2 ^ 64 - 1 := by decide
    have hroom : w.arb.nbrOutstandingReads 0 + (w.arb.responseQueue 0).length <
        Config.unbounded.limit := by
      rw [hlimit, hqueue, List.length_nil]
      omega
    have haccept : acceptRequest Config.unbounded w.arb pkt 0 0 =
        some ((w.arb.pushInBuf .read 0 0 pkt).recordRead 0 0 pkt) := by
      simp only [acceptRequest, hread, hroom, if_true]
    have harb : (recvTimingReqUp Config.unbounded (Peers.constant true true) pkt 0 0 w).2.arb =
        { (w.arb.pushInBuf .read 0 0 pkt).recordRead 0 0 pkt with arbEvent := true } := by
      simp only [recvTimingReqUp, haccept, World.note]
      exact congrArg Core.arb (scheduleArbEvent_core _)
    refine ⟨_, .next (.request 0 0 pkt) hw trivial rfl, ?_, ?_⟩
    · show (recvTimingReqUp _ _ pkt 0 0 w).2.arb.responseQueue 0 = []
      rw [harb]
      exact hqueue
    · show ((recvTimingReqUp _ _ pkt 0 0 w).2.arb.outstandingReads 0).total = n + 1
      rw [harb]
      simp [DramArb.recordRead, DramArb.pushInBuf, QueueMap.total_push, htotal]

/-- With a negative `buf_size` the counter wraps around. -/
theorem arbiter_counter_wraps :
    ¬ ∀ w, Reach (Steps (step Config.unbounded (Peers.constant true true))) Free
        (World.init ()) w →
      ∀ bank, w.arb.nbrOutstandingReads bank = (w.arb.outstandingReads bank).total := by
  intro h
  obtain ⟨w, hw, -, htotal⟩ := reach_accepted_reads ⟨0, 0, false⟩ rfl (2 ^ 32)
  have htidy : Tidy Config.unbounded w.toCore :=
    reach_invariant tidy_init (fun _ _ m hs => hs.move m) hw
  have hcounter := htidy.counter 0
  rw [show w.arb.nbrOutstandingReads 0 = _ from h w hw 0, htotal] at hcounter
  omega

end NetSim.Arbiter
