import Mathlib.Data.Multiset.AddSub
import NetSim.Arbiter.Bookkeeping
import NetSim.System.Network

/-!
# The traffic between the buffers and the memory model

The buffers compute the addresses of their requests in three places, and each request goes to the
port of its channel (`Reaction.Ensures`). The arbiter keeps a request on its bank, so the memory
object of a bank takes only transactions of that channel, and what the memory model has in flight is
outstanding in the object of its channel (`Traffic`). The memory model is open: it is assumed to
complete each transaction at most once (`AtMostOnce`).
-/

namespace NetSim.System

open Common Library Event Arbiter Dram Buffer

/-! ## The channel of an address -/

/-- `MemorySystem::GetChannel` under the mapping of `main`. -/
def channelOf (a : Addr) : Bank := hbm2Mapping.getChannel a

theorem channelOf_val (a : Addr) : (channelOf a).val = a.toNat / 64 % 8 :=
  hbm2Mapping.getChannel_val a

/-- The channel field lies below bit 32, so the wrapper finds it. -/
theorem dispatch_eq (a : Addr) : dispatch a = channelOf a := by
  refine (hbm2Mapping.getChannel_truncate_iff a).mpr fun i hi hhigh => ?_
  have hlow : hbm2Mapping.lowBit = 6 := rfl
  have hbits : hbm2Mapping.chBits = 3 := rfl
  omega

theorem channelOf_eq {a : Addr} {bank : Bank} (h : a.toNat % 512 = 64 * bank.val) :
    channelOf a = bank := by
  apply Fin.ext
  rw [channelOf_val]
  omega

/-! ## What the buffers request -/

/-- A read whose address is on the channel of `bank`. -/
def OnBank (bank : Bank) (pkt : Packet) : Prop := channelOf pkt.addr = bank ∧ pkt.isRead = true

/-- The base address of the buffer is on channel 0. -/
def Aligned (b : UpBuffer) : Prop := b.addr.toNat % 512 = 0

/-- Whatever the answers are, every request is on its bank, and `post` holds in the end. -/
def Reaction.Ensures {n : Nat} {δ ρ : Type} (post : δ → Prop) : Reaction n δ ρ → Prop
  | .done _ d => post d
  | .request bank _ pkt d next =>
    OnBank bank pkt ∧ ∀ accepted, Reaction.Ensures post (next accepted d)

variable {n : Nat} {b : UpBuffer}

theorem portAddr_onBank (hb : Aligned b) (port : PortId) :
    OnBank port (b.readPacket (b.portAddr port)) := by
  refine ⟨channelOf_eq ?_, rfl⟩
  have hport : port.val < 8 := port.isLt
  have hsum : (b.portAddr port).toNat = (b.addr.toNat + port.val * 64 % 2 ^ 64) % 2 ^ 64 := by
    rw [UpBuffer.portAddr, BitVec.toNat_add, BitVec.toNat_ofNat]
  unfold Aligned at hb
  show (b.portAddr port).toNat % 512 = _
  omega

/-- The loop of `init` from port `i` on: the address moves along with the port. -/
theorem initFrom_ensures (up : Fin n) (i : Nat) (ports : List PortId)
    (hports : ports.map Fin.val = List.range' i ports.length)
    (hb : b.addr.toNat % 512 = 64 * i % 512) :
    Reaction.Ensures (fun b' => b'.addr.toNat % 512 = 64 * (i + ports.length) % 512)
      (UpBuffer.initFrom up ports b) := by
  induction ports generalizing i b with
  | nil => exact hb
  | cons port ports ih =>
    rw [List.length_cons, List.range'_succ, List.map_cons, List.cons.injEq] at hports
    obtain ⟨hport, hrest⟩ := hports
    have hlt : port.val < 8 := port.isLt
    refine ⟨⟨channelOf_eq ?_, rfl⟩, fun _ => ?_⟩
    · show b.addr.toNat % 512 = _
      omega
    · have hnext := ih (b := { b.countPacket with addr := b.addr + 64 }) (i + 1) hrest ?_
      · rw [List.length_cons]
        rwa [show i + (ports.length + 1) = i + 1 + ports.length by omega]
      · show (b.addr + 64).toNat % 512 = _
        rw [BitVec.toNat_add, show (64 : BitVec 64).toNat = 64 from rfl]
        omega

theorem initHandler_ensures (up : Fin n) (hb : Aligned b) :
    Reaction.Ensures Aligned (UpBuffer.initHandler up b) :=
  initFrom_ensures up 0 banks (by decide) hb

theorem sendpktFrom_ensures (up : Fin n) (ports : List PortId) (hb : Aligned b) :
    Reaction.Ensures Aligned (UpBuffer.sendpktFrom up ports b) := by
  induction ports generalizing b with
  | nil => exact hb
  | cons port ports ih =>
    unfold UpBuffer.sendpktFrom
    split
    · exact ih hb
    · refine ⟨portAddr_onBank hb port, fun accepted => ih ?_⟩
      split
      · exact hb
      · exact hb

theorem sendRetryReq_ensures (up : Fin n) (port : PortId) (hb : Aligned b) :
    Reaction.Ensures Aligned (b.sendRetryReq up port) :=
  ⟨portAddr_onBank hb port, fun _ => hb⟩

theorem recvTimingResp_aligned (port : PortId) (pkt : Packet) (hb : Aligned b) :
    Aligned (b.recvTimingResp port pkt).2 := by
  unfold UpBuffer.recvTimingResp
  split
  · exact hb
  · dsimp only
    split
    · exact hb
    · exact hb

theorem sendData2cal_aligned (hb : Aligned b) : Aligned b.sendData2cal := by
  have hloop : Aligned (banks.foldl UpBuffer.popData b) := by
    refine foldl_invariant Aligned (fun b port _ hb => ?_) hb
    unfold UpBuffer.popData
    split
    · exact hb
    · exact hb
  unfold UpBuffer.sendData2cal
  dsimp only
  split
  · exact hloop
  · exact hloop

/-- All buffers are aligned when the one that acts leaves itself aligned. -/
theorem lift_ensures {ρ : Type} {up : Fin n} {r : Reaction n UpBuffer ρ} {u : Buffers n}
    (hr : Reaction.Ensures Aligned r) (hu : ∀ x, x ≠ up → Aligned (u x)) :
    Reaction.Ensures (fun u' => ∀ x, Aligned (u' x)) (lift up r u) := by
  -- between the requests of `init` the buffer that acts is not aligned, so nothing is asked of it
  induction r generalizing u with
  | done result b =>
    intro x
    by_cases hx : x = up
    · subst hx
      rw [Function.update_self]
      exact hr
    · rw [Function.update_of_ne hx]
      exact hu x hx
  | request bank target pkt b next ih =>
    refine ⟨hr.1, fun accepted => ih accepted _ ?_ fun x hx => ?_⟩
    · rw [Function.update_self]
      exact hr.2 accepted
    · rw [Function.update_of_ne hx]
      exact hu x hx

/-! ## The traffic between the arbiter and the memory model -/

section Traffic

variable {υ μ : Type}

/-- The memory model reports a transaction at most once for each time that it was added;
`inFlight` is what it has not reported. -/
structure AtMostOnce (M : MemorySystem μ) (inFlight : μ → Multiset Completion) : Prop where
  ask : ∀ addr isWrite m, inFlight (M.willAcceptTransaction addr isWrite m).2 ≤ inFlight m
  add : ∀ addr isWrite m,
    inFlight (M.addTransaction addr isWrite m) ≤ ⟨addr, isWrite⟩ ::ₘ inFlight m
  clock : ∀ m, ((M.clockTick m).1 : Multiset Completion) + inFlight (M.clockTick m).2 ≤ inFlight m

/-- The reads of a memory object: what the arbiter sent is outstanding, queued as a response or
answered. -/
structure Account (d : DRAMsim3) (sent answered : Nat) : Prop where
  counter : d.nbrOutstandingReads = d.outstandingReads.total % 2 ^ 32
  balance : d.outstandingReads.total + d.responseQueue.length + answered = sent

/-- The two objects hold the same reads and responses. -/
structure SameReads (d d' : DRAMsim3) : Prop where
  reads : d'.outstandingReads = d.outstandingReads
  nbr : d'.nbrOutstandingReads = d.nbrOutstandingReads
  queue : d'.responseQueue = d.responseQueue

namespace Account

variable {d d' : DRAMsim3} {sent answered : Nat} {pkt : Packet} {rest : List Packet}

theorem same (h : Account d sent answered) (hd : SameReads d d') : Account d' sent answered where
  counter := by rw [hd.nbr, hd.reads, h.counter]
  balance := by rw [hd.reads, hd.queue, h.balance]

theorem record (h : Account d sent answered) (hread : pkt.isRead = true) :
    Account (d.record pkt) (sent + 1) answered := by
  obtain ⟨hcounter, hbalance⟩ := h
  have hwrite : pkt.isWrite = false := by simpa using hread
  simp only [DRAMsim3.record, hwrite, Bool.not_false, if_true]
  refine ⟨?_, ?_⟩
  · show (d.nbrOutstandingReads + 1) % 2 ^ 32 = _
    rw [QueueMap.total_push]
    omega
  · show (d.outstandingReads.push pkt.addr pkt).total + d.responseQueue.length + answered = _
    rw [QueueMap.total_push]
    omega

theorem popResponse (h : Account d sent answered) (hqueue : d.responseQueue = pkt :: rest) :
    Account d.popResponse sent (answered + 1) := by
  obtain ⟨hcounter, hbalance⟩ := h
  refine ⟨hcounter, ?_⟩
  rw [hqueue, List.length_cons] at hbalance
  show d.outstandingReads.total + d.responseQueue.tail.length + (answered + 1) = sent
  rw [hqueue, List.tail_cons]
  omega

theorem complete {addr : Addr} (h : Account d sent answered)
    (hget : d.outstandingReads.get addr = pkt :: rest) (hcredit : d.nbrOutstandingReads ≠ 0) :
    Account ((d.dropRead addr).pushResponse pkt) sent answered := by
  obtain ⟨hcounter, hbalance⟩ := h
  have hpop := QueueMap.total_pop (m := d.outstandingReads) (k := addr) (by simp [hget])
  refine ⟨?_, ?_⟩
  · show d.nbrOutstandingReads - 1 = (d.outstandingReads.pop addr).total % 2 ^ 32
    omega
  · show (d.outstandingReads.pop addr).total + (d.responseQueue ++ [pkt]).length + answered = sent
    rw [List.length_append, List.length_singleton]
    omega

end Account

/-- A request in the log is on the bank of its port. -/
def EntryOnBank : PortEvent → Prop
  | .request bank _ pkt _ | .sendReq bank pkt _ => OnBank bank pkt
  | .reqRetry _ | .response .. | .sendResp .. | .respRetry .. | .retryReq .. => True

/-- The entry is neither a request nor a response. -/
def Quiet : PortEvent → Prop
  | .request .. | .sendReq .. | .response .. => False
  | .reqRetry _ | .sendResp .. | .respRetry .. | .retryReq .. => True

/-- Every request is on its bank, and every transaction of `pool` is outstanding in the object of
its channel. -/
structure Traffic (pool : Multiset Completion) (w : World (Outside υ μ)) : Prop where
  log : ∀ e ∈ w.log, EntryOnBank e
  inBufs : ∀ kind bank up, ∀ pkt ∈ w.arb.inBufs kind bank up, OnBank bank pkt
  account : ∀ bank, Account (w.rest.drams bank) (sentOn bank w.log).length
    (answeredOn bank w.log).length
  reads : ∀ addr, pool.count ⟨addr, false⟩ ≤
    ((w.rest.drams (channelOf addr)).outstandingReads.get addr).length
  writes : ∀ addr, ⟨addr, true⟩ ∉ pool

namespace Traffic

variable {pool pool' : Multiset Completion} {w w' : World (Outside υ μ)} {bank : Bank}
  {pkt : Packet}

theorem mono (h : Traffic pool w) (hle : pool' ≤ pool) : Traffic pool' w where
  log := h.log
  inBufs := h.inBufs
  account := h.account
  reads addr := (Multiset.count_le_of_le _ hle).trans (h.reads addr)
  writes addr hmem := h.writes addr (Multiset.mem_of_le hle hmem)

/-- Changes of everything else. -/
theorem frame (h : Traffic pool w) (hbufs : w'.arb.inBufs = w.arb.inBufs) (hlog : w'.log = w.log)
    (hdrams : ∀ bank, SameReads (w.rest.drams bank) (w'.rest.drams bank)) : Traffic pool w' where
  log := by
    rw [hlog]
    exact h.log
  inBufs := by
    rw [hbufs]
    exact h.inBufs
  account bank := by
    rw [hlog]
    exact (h.account bank).same (hdrams bank)
  reads addr := by
    rw [(hdrams _).reads]
    exact h.reads addr
  writes := h.writes

theorem of_eq (h : Traffic pool w) (hbufs : w'.arb.inBufs = w.arb.inBufs) (hlog : w'.log = w.log)
    (hdrams : w'.rest.drams = w.rest.drams) : Traffic pool w' := by
  refine h.frame hbufs hlog fun bank => ?_
  rw [hdrams]
  exact ⟨rfl, rfl, rfl⟩

theorem modify (h : Traffic pool w) (M : MemorySystem μ) (bank : Bank) {f : DRAMsim3 → DRAMsim3}
    (hf : ∀ d, SameReads d (f d)) : Traffic pool ((worldHost M bank).modify f w) := by
  refine h.frame rfl rfl fun b => ?_
  show SameReads _ (Function.update w.rest.drams bank _ b)
  by_cases hb : b = bank
  · subst hb
    rw [Function.update_self]
    exact hf _
  · rw [Function.update_of_ne hb]
    exact ⟨rfl, rfl, rfl⟩

theorem note (h : Traffic pool w) {e : PortEvent} (he : Quiet e) : Traffic pool (w.note e) where
  log := by
    refine List.forall_mem_cons.mpr ⟨?_, h.log⟩
    cases e with
    | request | sendReq | response => exact he.elim
    | reqRetry | sendResp | respRetry | retryReq => trivial
  inBufs := h.inBufs
  account b := by
    have hsent : sentOn b (e :: w.log) = sentOn b w.log := by
      cases e <;> first | rfl | exact he.elim
    have hanswered : answeredOn b (e :: w.log) = answeredOn b w.log := by
      cases e <;> first | rfl | exact he.elim
    show Account _ (sentOn b (e :: w.log)).length (answeredOn b (e :: w.log)).length
    rw [hsent, hanswered]
    exact h.account b
  reads := h.reads
  writes := h.writes

/-- A request that is on its bank; the buffer is left with at most one more packet. -/
theorem request (h : Traffic pool w) (up : Nat) (accepted : Bool) (hpkt : OnBank bank pkt)
    (hlog : w'.log = .request bank up pkt accepted :: w.log)
    (hbufs : ∀ kind b u, ∀ p ∈ w'.arb.inBufs kind b u,
      p ∈ w.arb.inBufs kind b u ∨ b = bank ∧ p = pkt)
    (hdrams : w'.rest.drams = w.rest.drams) : Traffic pool w' where
  log := by
    rw [hlog]
    exact List.forall_mem_cons.mpr ⟨hpkt, h.log⟩
  inBufs kind b u p hmem := by
    rcases hbufs kind b u p hmem with hmem | ⟨rfl, rfl⟩
    · exact h.inBufs kind b u p hmem
    · exact hpkt
  account b := by
    rw [hlog, hdrams]
    exact h.account b
  reads := by
    rw [hdrams]
    exact h.reads
  writes := h.writes

/-- The memory object takes a read that is on its bank. -/
theorem taken (h : Traffic pool w) (hpkt : OnBank bank pkt)
    (hlog : w'.log = .sendReq bank pkt true :: w.log)
    (hbufs : ∀ kind b u, ∀ p ∈ w'.arb.inBufs kind b u, p ∈ w.arb.inBufs kind b u)
    (hdrams : w'.rest.drams =
      Function.update w.rest.drams bank ((w.rest.drams bank).record pkt)) :
    Traffic (⟨pkt.addr, pkt.isWrite⟩ ::ₘ pool) w' := by
  obtain ⟨hchannel, hread⟩ := hpkt
  have hwrite : pkt.isWrite = false := by simpa using hread
  have hrecord : ((w.rest.drams bank).record pkt).outstandingReads =
      (w.rest.drams bank).outstandingReads.push pkt.addr pkt := by
    simp only [DRAMsim3.record, hwrite, Bool.not_false, if_true]
  constructor
  case log =>
    rw [hlog]
    exact List.forall_mem_cons.mpr ⟨⟨hchannel, hread⟩, h.log⟩
  case inBufs => exact fun kind b u p hmem => h.inBufs kind b u p (hbufs kind b u p hmem)
  case account =>
    intro b
    rw [hlog, hdrams, sentOn_cons, answeredOn_cons]
    by_cases hb : b = bank
    · subst hb
      rw [Function.update_self]
      simpa [PortEvent.sentOn, PortEvent.answeredOn, hread, Nat.add_comm] using
        (h.account b).record hread
    · rw [Function.update_of_ne hb]
      simpa [PortEvent.sentOn, PortEvent.answeredOn, Ne.symm hb] using h.account b
  case reads =>
    intro addr
    have hold := h.reads addr
    rw [hdrams, Multiset.count_cons, hwrite]
    by_cases hb : channelOf addr = bank
    · -- the object that takes the read is the one that its completion will be dispatched to
      rw [hb] at hold ⊢
      rw [Function.update_self, hrecord, QueueMap.get_push]
      by_cases haddr : addr = pkt.addr
      · subst haddr
        simpa using hold
      · simpa [haddr] using hold
    · have haddr : addr ≠ pkt.addr := by
        rintro rfl
        exact hb hchannel
      rw [Function.update_of_ne hb]
      simpa [haddr] using hold
  case writes =>
    intro addr hmem
    rw [hwrite] at hmem
    rcases Multiset.mem_cons.mp hmem with heq | hmem
    · cases heq
    · exact h.writes addr hmem

/-- The memory object refuses a request that is on its bank. -/
theorem refused (h : Traffic pool w) (hpkt : OnBank bank pkt)
    (hlog : w'.log = .sendReq bank pkt false :: w.log) (hbufs : w'.arb.inBufs = w.arb.inBufs)
    (hdrams : ∀ bank, SameReads (w.rest.drams bank) (w'.rest.drams bank)) : Traffic pool w' where
  log := by
    rw [hlog]
    exact List.forall_mem_cons.mpr ⟨hpkt, h.log⟩
  inBufs := by
    rw [hbufs]
    exact h.inBufs
  account b := by
    rw [hlog]
    exact (h.account b).same (hdrams b)
  reads addr := by
    rw [(hdrams _).reads]
    exact h.reads addr
  writes := h.writes

/-- The arbiter takes the oldest response of the memory object. -/
theorem answered (h : Traffic pool w) {rest : List Packet}
    (hqueue : (w.rest.drams bank).responseQueue = pkt :: rest)
    (hlog : w'.log = .response bank pkt :: w.log) (hbufs : w'.arb.inBufs = w.arb.inBufs)
    (hdrams : w'.rest.drams = Function.update w.rest.drams bank (w.rest.drams bank).popResponse) :
    Traffic pool w' where
  log := by
    rw [hlog]
    exact List.forall_mem_cons.mpr ⟨trivial, h.log⟩
  inBufs := by
    rw [hbufs]
    exact h.inBufs
  account b := by
    rw [hlog, hdrams, sentOn_cons, answeredOn_cons]
    by_cases hb : b = bank
    · subst hb
      rw [Function.update_self]
      simpa [PortEvent.sentOn, PortEvent.answeredOn, Nat.add_comm] using
        (h.account b).popResponse hqueue
    · rw [Function.update_of_ne hb]
      simpa [PortEvent.sentOn, PortEvent.answeredOn, Ne.symm hb] using h.account b
  reads addr := by
    have hold := h.reads addr
    rw [hdrams]
    by_cases hb : channelOf addr = bank
    · rw [hb] at hold ⊢
      rw [Function.update_self]
      exact hold
    · rw [Function.update_of_ne hb]
      exact hold
  writes := h.writes

/-- A transaction that the memory model reports is a read that the object of its channel holds. -/
theorem found {t : Completion} (h : Traffic (t ::ₘ pool) w) :
    t.isWrite = false ∧ ∃ pkt rest,
      (w.rest.drams (channelOf t.addr)).outstandingReads.get t.addr = pkt :: rest := by
  obtain ⟨addr, isWrite⟩ := t
  cases isWrite with
  | true => exact absurd (Multiset.mem_cons_self _ pool) (h.writes addr)
  | false =>
    refine ⟨rfl, ?_⟩
    have hcount := h.reads addr
    rw [Multiset.count_cons_self] at hcount
    exact List.exists_cons_of_length_pos (Nat.lt_of_lt_of_le (Nat.succ_pos _) hcount)

/-- The object of the channel moves a completed read to its response queue. -/
theorem completed {addr : Addr} (h : Traffic (⟨addr, false⟩ ::ₘ pool) w) {rest : List Packet}
    (hget : (w.rest.drams (channelOf addr)).outstandingReads.get addr = pkt :: rest)
    (hcredit : (w.rest.drams (channelOf addr)).nbrOutstandingReads ≠ 0)
    (hlog : w'.log = w.log) (hbufs : w'.arb.inBufs = w.arb.inBufs)
    (hdrams : w'.rest.drams = Function.update w.rest.drams (channelOf addr)
      (((w.rest.drams (channelOf addr)).dropRead addr).pushResponse pkt)) :
    Traffic pool w' where
  log := by
    rw [hlog]
    exact h.log
  inBufs := by
    rw [hbufs]
    exact h.inBufs
  account b := by
    rw [hlog, hdrams]
    by_cases hb : b = channelOf addr
    · subst hb
      rw [Function.update_self]
      exact (h.account _).complete hget hcredit
    · rw [Function.update_of_ne hb]
      exact h.account b
  reads a := by
    have hold := h.reads a
    rw [hdrams]
    by_cases hb : channelOf a = channelOf addr
    · rw [hb] at hold ⊢
      rw [Function.update_self]
      show _ ≤ ((QueueMap.pop _ _).get a).length
      rw [QueueMap.get_pop]
      by_cases ha : a = addr
      · subst ha
        rw [Multiset.count_cons_self, hget, List.length_cons] at hold
        rw [if_pos rfl, hget, List.tail_cons]
        omega
      · rw [Multiset.count_cons_of_ne (by simpa using ha)] at hold
        rwa [if_neg ha]
    · have ha : a ≠ addr := by
        rintro rfl
        exact hb rfl
      rw [Multiset.count_cons_of_ne (by simpa using ha)] at hold
      rwa [Function.update_of_ne hb]
  writes a hmem := h.writes a (Multiset.mem_cons_of_mem hmem)

end Traffic

end Traffic

end NetSim.System
