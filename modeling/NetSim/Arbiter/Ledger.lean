import NetSim.Arbiter.Moves

/-!
# The ledger of reads

What the log says about the reads of one address on one bank (accepted, sent, answered) against
what the arbiter holds. Accepted reads are answered in the order in which they were accepted, so
the records of an address are the accepted reads without the first `answeredAt` of them, and these
first ones are the responses. A read that is accepted and not yet sent waits in a buffer.
-/

namespace NetSim.Arbiter

open Common Library

/-! ## Reads of one address in the log, oldest first -/

def PortEvent.acceptedAt (bank : Bank) (addr : Addr) : PortEvent → List Packet
  | .request b _ pkt true => if b = bank ∧ pkt.addr = addr ∧ pkt.isRead then [pkt] else []
  | _ => []

def PortEvent.sentAt (bank : Bank) (addr : Addr) : PortEvent → List Packet
  | .sendReq b pkt true => if b = bank ∧ pkt.addr = addr ∧ pkt.isRead then [pkt] else []
  | _ => []

def PortEvent.deliveredOn (bank : Bank) : PortEvent → List Packet
  | .sendResp b _ pkt true => if b = bank then [pkt] else []
  | _ => []

/-- The reads of `addr` that were accepted on `bank`. -/
def acceptedAt (bank : Bank) (addr : Addr) : Log → List Packet
  | [] => []
  | e :: log => acceptedAt bank addr log ++ e.acceptedAt bank addr

/-- The reads of `addr` that were sent on `requestPorts[bank]`. -/
def sentAt (bank : Bank) (addr : Addr) : Log → List Packet
  | [] => []
  | e :: log => sentAt bank addr log ++ e.sentAt bank addr

/-- The packets that were delivered on `bank`. -/
def deliveredOn (bank : Bank) : Log → List Packet
  | [] => []
  | e :: log => deliveredOn bank log ++ e.deliveredOn bank

/-- The number of responses with address `addr` that came back on `bank`. -/
def answeredAt (bank : Bank) (addr : Addr) : Log → Nat
  | [] => 0
  | .response b pkt :: log =>
    answeredAt bank addr log + if b = bank ∧ pkt.addr = addr then 1 else 0
  | .request .. :: log | .sendReq .. :: log | .reqRetry .. :: log | .sendResp .. :: log
  | .respRetry .. :: log | .retryReq .. :: log => answeredAt bank addr log

theorem mem_acceptedAt {bank : Bank} {addr : Addr} {pkt : Packet} {log : Log}
    (h : pkt ∈ acceptedAt bank addr log) : pkt.addr = addr ∧ pkt.isRead = true := by
  induction log with
  | nil => cases h
  | cons e log ih =>
    rcases List.mem_append.mp h with h | h
    · exact ih h
    · unfold PortEvent.acceptedAt at h
      split at h
      · split at h
        · rename_i hif
          rw [List.mem_singleton.mp h]
          exact hif.2
        · cases h
      · cases h

theorem sendReq_mem_of_mem_sentAt {bank : Bank} {addr : Addr} {pkt : Packet} {log : Log}
    (h : pkt ∈ sentAt bank addr log) : PortEvent.sendReq bank pkt true ∈ log := by
  induction log with
  | nil => cases h
  | cons e log ih =>
    rcases List.mem_append.mp h with h | h
    · exact List.mem_cons_of_mem _ (ih h)
    · unfold PortEvent.sentAt at h
      split at h
      · split at h
        · rename_i hif
          rw [List.mem_singleton.mp h, ← hif.1]
          exact List.mem_cons_self
        · cases h
      · cases h

/-! ## The ledger -/

/-- The number of times `pkt` waits in a read buffer of `bank`. -/
def waiting (c : Config) (a : DramArb) (bank : Bank) (pkt : Packet) : Nat :=
  ∑ up ∈ Finset.range c.numUpstreams, (a.readInBufs bank up).count pkt

/-- What the log says of the reads is what the arbiter holds. -/
structure Ledger (c : Config) (s : Core) : Prop where
  kinds : ∀ kind bank up pkt, pkt ∈ s.arb.inBufs kind bank up → (pkt.isRead = true ↔ kind = .read)
  answered_le : ∀ bank addr, answeredAt bank addr s.log ≤ (acceptedAt bank addr s.log).length
  records : ∀ bank addr, (s.arb.outstandingReads bank).get addr =
    (acceptedAt bank addr s.log).drop (answeredAt bank addr s.log)
  responded : ∀ bank pkt, ((s.arb.responseQueue bank).map Prod.fst).count pkt +
      (deliveredOn bank s.log).count pkt =
    ((acceptedAt bank pkt.addr s.log).take (answeredAt bank pkt.addr s.log)).count pkt
  waits : ∀ bank pkt, pkt.isRead = true → (acceptedAt bank pkt.addr s.log).count pkt =
    (sentAt bank pkt.addr s.log).count pkt + waiting c s.arb bank pkt

variable {c : Config} {s s' : Core} {bank : Bank} {up : Nat} {pkt : Packet}

theorem ledger_init : Ledger c Core.init where
  kinds := fun _ _ _ _ h => by simp [Core.init, DramArb.init] at h
  answered_le := fun _ _ => le_rfl
  records := fun _ _ => by simp [Core.init, DramArb.init, acceptedAt]
  responded := fun _ _ => rfl
  waits := fun _ _ _ => by simp [Core.init, DramArb.init, acceptedAt, sentAt, waiting]

/-- A move that touches no read buffer, record or response. -/
theorem Ledger.frame (h : Ledger c s) (hbufs : s'.arb.inBufs .read = s.arb.inBufs .read)
    (hreads : s'.arb.outstandingReads = s.arb.outstandingReads)
    (hqueue : s'.arb.responseQueue = s.arb.responseQueue)
    (haccepted : ∀ bank addr, acceptedAt bank addr s'.log = acceptedAt bank addr s.log)
    (hsent : ∀ bank addr, sentAt bank addr s'.log = sentAt bank addr s.log)
    (hanswered : ∀ bank addr, answeredAt bank addr s'.log = answeredAt bank addr s.log)
    (hdelivered : ∀ bank, deliveredOn bank s'.log = deliveredOn bank s.log)
    (hkinds : ∀ kind bank up pkt, pkt ∈ s'.arb.inBufs kind bank up →
      (pkt.isRead = true ↔ kind = .read)) : Ledger c s' where
  kinds := hkinds
  answered_le := by
    simp only [haccepted, hanswered]
    exact h.answered_le
  records := by
    simp only [hreads, haccepted, hanswered]
    exact h.records
  responded := by
    simp only [hqueue, haccepted, hanswered, hdelivered]
    exact h.responded
  waits := by
    simp only [haccepted, hsent, waiting, DramArb.readInBufs, hbufs]
    exact h.waits

/-- An entry of the log that accepts, sends, answers and delivers no read. -/
theorem Ledger.quiet {e : PortEvent} {a a' : DramArb} {log : Log} (h : Ledger c ⟨a, log⟩)
    (hbufs : a'.inBufs = a.inBufs) (hreads : a'.outstandingReads = a.outstandingReads)
    (hqueue : a'.responseQueue = a.responseQueue) (haccepted : ∀ b x, e.acceptedAt b x = [])
    (hsent : ∀ b x, e.sentAt b x = []) (hdelivered : ∀ b, e.deliveredOn b = [])
    (hanswered : ∀ b x, answeredAt b x (e :: log) = answeredAt b x log) :
    Ledger c ⟨a', e :: log⟩ := by
  refine h.frame (congrFun hbufs .read) hreads hqueue (fun b x => ?_) (fun b x => ?_) hanswered
    (fun b => ?_) ?_
  · rw [acceptedAt, haccepted, List.append_nil]
  · rw [sentAt, hsent, List.append_nil]
  · rw [deliveredOn, hdelivered, List.append_nil]
  · rw [hbufs]
    exact h.kinds

/-! ## Moves that accept or send -/

theorem waiting_pushInBuf {a : DramArb} (hup : up < c.numUpstreams) (b : Bank) (q : Packet) :
    waiting c (a.pushInBuf .read bank up pkt) b q =
      waiting c a b q + if b = bank then [pkt].count q else 0 := by
  refine sum_eq_add_of_single (Finset.mem_range.mpr hup) ?_ fun u hu => ?_
  · by_cases hb : b = bank
    · simp [DramArb.pushInBuf_inBufs, hb]
    · simp [DramArb.pushInBuf_inBufs, hb]
  · simp [DramArb.pushInBuf_inBufs, hu]

theorem waiting_popInBuf {a : DramArb} {rest : List Packet} (hup : up < c.numUpstreams)
    (hhead : a.inBufs .read bank up = pkt :: rest) (b : Bank) (q : Packet) :
    waiting c a b q =
      waiting c (a.popInBuf c .read bank up) b q + if b = bank then [pkt].count q else 0 := by
  refine sum_eq_add_of_single (Finset.mem_range.mpr hup) ?_ fun u hu => ?_
  · by_cases hb : b = bank
    · subst hb
      simp [DramArb.popInBuf_inBufs, hhead, List.count_cons]
    · simp [DramArb.popInBuf_inBufs, hb]
  · simp [DramArb.popInBuf_inBufs, hu]

/-- An entry of the log about a read counts once, on its own bank. -/
theorem count_read_event (hread : pkt.isRead = true) (b : Bank) (q : Packet) :
    (if bank = b ∧ pkt.addr = q.addr ∧ pkt.isRead then [pkt] else []).count q =
      if b = bank then [pkt].count q else 0 := by
  by_cases hb : b = bank
  · by_cases haddr : pkt.addr = q.addr
    · simp [hb, haddr, hread]
    · have hne : pkt ≠ q := fun he => haddr (by rw [he])
      simp [hb, haddr, hne]
  · simp [hb, Ne.symm hb]

/-- An accepted read is recorded and waits in a buffer. -/
theorem Ledger.acceptRead {a : DramArb} {log : Log} (h : Ledger c ⟨a, log⟩)
    (hup : up < c.numUpstreams) (hread : pkt.isRead = true) (arbEvent : Bool) :
    Ledger c ⟨{ (a.pushInBuf .read bank up pkt).recordRead bank up pkt with arbEvent := arbEvent },
      .request bank up pkt true :: log⟩ where
  kinds := by
    intro kind b u q hq
    obtain hq | ⟨rfl, rfl, -⟩ := DramArb.mem_pushInBuf hq
    · exact h.kinds kind b u q hq
    · simp [hread]
  answered_le := by
    intro b addr
    have hle := h.answered_le b addr
    simp only [answeredAt, acceptedAt, List.length_append] at hle ⊢
    omega
  records := by
    intro b addr
    have hrec := h.records b addr
    have hle := h.answered_le b addr
    have hdrop : (acceptedAt b addr (.request bank up pkt true :: log)).drop
        (answeredAt b addr (.request bank up pkt true :: log)) =
        (a.outstandingReads b).get addr ++
          PortEvent.acceptedAt b addr (.request bank up pkt true) := by
      rw [hrec]
      exact List.drop_append_of_le_length hle
    rw [hdrop]
    by_cases hb : b = bank
    · subst hb
      simp only [DramArb.recordRead, DramArb.pushInBuf, Function.update_self, QueueMap.get_push]
      by_cases haddr : addr = pkt.addr
      · simp [PortEvent.acceptedAt, haddr, hread]
      · simp [PortEvent.acceptedAt, haddr, Ne.symm haddr]
    · simp [DramArb.recordRead, DramArb.pushInBuf, PortEvent.acceptedAt, hb, Ne.symm hb]
  responded := by
    intro b q
    have hresp := h.responded b q
    have hle := h.answered_le b q.addr
    have htake : (acceptedAt b q.addr (.request bank up pkt true :: log)).take
        (answeredAt b q.addr (.request bank up pkt true :: log)) =
        (acceptedAt b q.addr log).take (answeredAt b q.addr log) :=
      List.take_append_of_le_length hle
    rw [htake, ← hresp]
    simp [deliveredOn, PortEvent.deliveredOn, DramArb.recordRead, DramArb.pushInBuf]
  waits := by
    intro b q hq
    have hwaits := h.waits b q hq
    have hpush : waiting c (a.pushInBuf .read bank up pkt) b q = _ := waiting_pushInBuf hup b q
    change _ = _ + waiting c (a.pushInBuf .read bank up pkt) b q
    simp only [acceptedAt, sentAt, List.count_append, PortEvent.acceptedAt, PortEvent.sentAt,
      count_read_event hread, List.append_nil] at hwaits ⊢
    omega

/-- A sent read leaves its buffer. -/
theorem Ledger.sendRead {a : DramArb} {log : Log} {rest : List Packet} (h : Ledger c ⟨a, log⟩)
    (hup : up < c.numUpstreams) (hhead : a.inBufs .read bank up = pkt :: rest) :
    Ledger c ⟨a.popInBuf c .read bank up, .sendReq bank pkt true :: log⟩ where
  kinds := by
    intro kind b u q hq
    exact h.kinds kind b u q (DramArb.mem_popInBuf hq)
  answered_le := by simpa [acceptedAt, answeredAt, PortEvent.acceptedAt] using h.answered_le
  records := by
    simpa [acceptedAt, answeredAt, PortEvent.acceptedAt, DramArb.popInBuf] using h.records
  responded := by
    simpa [acceptedAt, answeredAt, PortEvent.acceptedAt, DramArb.popInBuf, deliveredOn,
      PortEvent.deliveredOn] using h.responded
  waits := by
    intro b q hq
    have hwaits := h.waits b q hq
    have hpop := waiting_popInBuf hup hhead b q
    have hread : pkt.isRead = true := (h.kinds .read bank up pkt (by simp [hhead])).mpr rfl
    simp only [acceptedAt, sentAt, List.count_append, PortEvent.acceptedAt, PortEvent.sentAt,
      count_read_event hread, List.append_nil] at hwaits ⊢
    omega

/-- A sent write leaves its buffer. -/
theorem Ledger.sendWrite {a : DramArb} {log : Log} {rest : List Packet} (h : Ledger c ⟨a, log⟩)
    (hhead : a.inBufs .write bank up = pkt :: rest) :
    Ledger c ⟨a.popInBuf c .write bank up, .sendReq bank pkt true :: log⟩ := by
  have hwrite : pkt.isRead = false := by
    have hkind := h.kinds .write bank up pkt (by simp [hhead])
    simpa using hkind
  refine h.frame ?_ rfl rfl (fun _ _ => ?_) (fun _ _ => ?_) (fun _ _ => rfl) (fun _ => ?_) ?_
  · simp [DramArb.popInBuf]
  · simp [acceptedAt, PortEvent.acceptedAt]
  · simp [sentAt, PortEvent.sentAt, hwrite]
  · simp [deliveredOn, PortEvent.deliveredOn]
  · intro kind b u q hq
    exact h.kinds kind b u q (DramArb.mem_popInBuf hq)

/-- An accepted write waits in a buffer. -/
theorem Ledger.acceptWrite {a : DramArb} {log : Log} (h : Ledger c ⟨a, log⟩)
    (hwrite : pkt.isRead = false) (arbEvent : Bool) :
    Ledger c ⟨{ a.pushInBuf .write bank up pkt with arbEvent := arbEvent },
      .request bank up pkt true :: log⟩ := by
  refine h.frame ?_ rfl rfl (fun _ _ => ?_) (fun _ _ => ?_) (fun _ _ => rfl) (fun _ => ?_) ?_
  · simp [DramArb.pushInBuf]
  · simp [acceptedAt, PortEvent.acceptedAt, hwrite]
  · simp [sentAt, PortEvent.sentAt]
  · simp [deliveredOn, PortEvent.deliveredOn]
  · intro kind b u q hq
    obtain hq | ⟨rfl, rfl, -⟩ := DramArb.mem_pushInBuf hq
    · exact h.kinds kind b u q hq
    · simp [hwrite]

/-! ## Moves of responses -/

/-- A delivered response leaves the queue. -/
theorem Ledger.deliver {a : DramArb} {log : Log} {rest : List (Packet × Nat)}
    (h : Ledger c ⟨a, log⟩) (hfront : a.responseQueue bank = (pkt, up) :: rest) :
    Ledger c ⟨a.popResponse bank, .sendResp bank up pkt true :: log⟩ where
  kinds := h.kinds
  answered_le := by simpa [acceptedAt, answeredAt, PortEvent.acceptedAt] using h.answered_le
  records := by
    simpa [acceptedAt, answeredAt, PortEvent.acceptedAt, DramArb.popResponse] using h.records
  responded := by
    intro b q
    have hresp := h.responded b q
    simp only [acceptedAt, answeredAt, PortEvent.acceptedAt, List.append_nil, deliveredOn,
      List.count_append, PortEvent.deliveredOn] at hresp ⊢
    rw [← hresp]
    by_cases hb : b = bank
    · subst hb
      simp only [DramArb.popResponse, Function.update_self, hfront, List.tail_cons, List.map_cons,
        List.count_cons, if_true, List.count_nil]
      omega
    · simp [DramArb.popResponse, hb, Ne.symm hb]
  waits := by
    simpa [acceptedAt, sentAt, PortEvent.acceptedAt, PortEvent.sentAt, DramArb.popResponse,
      waiting] using h.waits

theorem take_succ_of_drop {α : Type} {l xs : List α} {k : Nat} {x : α} (h : l.drop k = x :: xs) :
    l.take (k + 1) = l.take k ++ [x] := by
  rw [List.take_add_one, ← List.head?_drop, h]
  rfl

/-- An answered read leaves the records and enters the response queue. -/
theorem Ledger.response {a : DramArb} {log : Log} {resPkt : Packet} {reads : List Packet}
    (h : Ledger c ⟨a, log⟩) (hread : (a.outstandingReads bank).get pkt.addr = resPkt :: reads) :
    Ledger c ⟨(a.dropRecord bank pkt.addr).pushResponse bank resPkt up,
      .response bank pkt :: log⟩ := by
  have hdrop : (acceptedAt bank pkt.addr log).drop (answeredAt bank pkt.addr log) =
      resPkt :: reads := (h.records bank pkt.addr).symm.trans hread
  have haddr : resPkt.addr = pkt.addr :=
    (mem_acceptedAt (List.mem_of_mem_drop (hdrop ▸ List.mem_cons_self))).1
  have haccepted (b : Bank) (x : Addr) :
      acceptedAt b x (.response bank pkt :: log) = acceptedAt b x log := by
    simp [acceptedAt, PortEvent.acceptedAt]
  refine ⟨h.kinds, fun b x => ?_, fun b x => ?_, fun b q => ?_, ?_⟩
  · have hle := h.answered_le b x
    rw [haccepted]
    simp only [answeredAt]
    split
    · rename_i hif
      obtain ⟨rfl, rfl⟩ := hif
      have hlen := congrArg List.length hdrop
      simp only [List.length_drop, List.length_cons] at hlen
      omega
    · exact hle
  · have hrec := h.records b x
    rw [haccepted]
    by_cases hbx : bank = b ∧ pkt.addr = x
    · obtain ⟨rfl, rfl⟩ := hbx
      simp only [DramArb.pushResponse, DramArb.dropRecord, Function.update_self, QueueMap.get_pop,
        if_true, answeredAt, and_self, hread, List.tail_cons]
      rw [← List.drop_drop, hdrop]
      rfl
    · have hanswered : answeredAt b x (.response bank pkt :: log) = answeredAt b x log := by
        simp [answeredAt, hbx]
      rw [hanswered, ← hrec]
      by_cases hb : b = bank
      · subst hb
        have hx : x ≠ pkt.addr := fun hx => hbx ⟨rfl, hx.symm⟩
        simp [DramArb.pushResponse, DramArb.dropRecord, QueueMap.get_pop, hx]
      · simp [DramArb.pushResponse, DramArb.dropRecord, hb]
  · have hresp := h.responded b q
    have hdelivered : deliveredOn b (.response bank pkt :: log) = deliveredOn b log := by
      simp [deliveredOn, PortEvent.deliveredOn]
    rw [haccepted, hdelivered]
    by_cases hb : bank = b
    · subst hb
      have hqueue : (((a.dropRecord bank pkt.addr).pushResponse bank resPkt up).responseQueue
          bank).map Prod.fst = (a.responseQueue bank).map Prod.fst ++ [resPkt] := by
        simp [DramArb.pushResponse, DramArb.dropRecord]
      rw [hqueue, List.count_append]
      by_cases hx : pkt.addr = q.addr
      · rw [hx] at hdrop
        simp only [answeredAt, hx, and_self, if_true]
        rw [take_succ_of_drop hdrop, List.count_append]
        simp only at hresp
        omega
      · have hne : resPkt ≠ q := fun he => hx (by rw [← haddr, he])
        simpa [answeredAt, hx, hne] using hresp
    · have hb' : b ≠ bank := fun e => hb e.symm
      simpa [answeredAt, hb, DramArb.pushResponse, DramArb.dropRecord, hb'] using hresp
  · simpa [acceptedAt, sentAt, PortEvent.acceptedAt, PortEvent.sentAt, DramArb.pushResponse,
      DramArb.dropRecord, waiting] using h.waits

/-! ## Every move -/

theorem Ledger.respMove (h : Ledger c s) (hmove : RespMove c s s') : Ledger c s' := by
  cases hmove with
  | requested hreq =>
    cases hreq with
    | accept hup hacc =>
      obtain ⟨hread, -, rfl⟩ | ⟨hwrite, -, rfl⟩ := acceptRequest_cases hacc
      · exact h.acceptRead hup hread true
      · exact h.acceptWrite hwrite true
    | refuse =>
      exact h.quiet rfl rfl rfl (fun _ _ => rfl) (fun _ _ => rfl) (fun _ => rfl) (fun _ _ => rfl)
  | delivered hfront => exact h.deliver hfront
  | bounced =>
    exact h.quiet rfl rfl rfl (fun _ _ => rfl) (fun _ _ => rfl) (fun _ => rfl) (fun _ _ => rfl)
  | retried =>
    exact h.quiet rfl rfl rfl (fun _ _ => rfl) (fun _ _ => rfl) (fun _ => rfl) (fun _ _ => rfl)
  | cleared =>
    exact h.frame rfl rfl rfl (fun _ _ => rfl) (fun _ _ => rfl) (fun _ _ => rfl) (fun _ => rfl)
      h.kinds
  | event =>
    exact h.frame rfl rfl rfl (fun _ _ => rfl) (fun _ _ => rfl) (fun _ _ => rfl) (fun _ => rfl)
      h.kinds

theorem Ledger.arbMove (h : Ledger c s) (hmove : ArbMove c s s') : Ledger c s' := by
  cases hmove with
  | offered hoffer =>
    cases hoffer with
    | refused =>
      exact h.quiet rfl rfl rfl (fun _ _ => rfl) (fun _ _ => rfl) (fun _ => rfl) (fun _ _ => rfl)
    | @taken a log kind up pkt rest hup hhead =>
      cases kind with
      | read => exact h.sendRead hup hhead
      | write => exact h.sendWrite hhead
  | event =>
    exact h.frame rfl rfl rfl (fun _ _ => rfl) (fun _ _ => rfl) (fun _ _ => rfl) (fun _ => rfl)
      h.kinds

theorem Ledger.move (h : Ledger c s) (hmove : Move c s s') : Ledger c s' := by
  cases hmove with
  | resp hmove => exact h.respMove hmove
  | arb hmove => exact h.arbMove hmove
  | response hread hcredit hup => exact h.response hread
  | respRetry =>
    exact h.quiet rfl rfl rfl (fun _ _ => rfl) (fun _ _ => rfl) (fun _ => rfl) (fun _ _ => rfl)
  | reqRetry =>
    exact h.quiet rfl rfl rfl (fun _ _ => rfl) (fun _ _ => rfl) (fun _ => rfl) (fun _ _ => rfl)

end NetSim.Arbiter
