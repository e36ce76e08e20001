import NetSim.Buffer.Draining
import NetSim.Library.Along

/-!
# The buffer as a requester

After a refused `sendTimingReq` the sender has to wait for `recvReqRetry` of that port and then send
the same request again. An `UpBuffer` marks a refused port in `retryReq` but never reads the flag:
`tickEvent` sends on every port with room in its buffer. The refused packet is not kept either. A
retry makes a new packet for the address that the port has now, and that is the refused address
unless the refusal was in `init`, which moves the base while it sends.
-/

namespace NetSim.Buffer

open Common Library Arbiter

namespace Upstream

/-! ## Handlers and their requests -/

/-- Requests for the addresses `addr` at some ports, one after the other, with their answers. -/
inductive Requests (addr : PortId → Addr) (answers : PortId → Bool) :
    List PortId → List BufferEntry → List BufferEntry → Prop
  | done {log : List BufferEntry} : Requests addr answers [] log log
  | next {port : PortId} {ports : List PortId} {pkt : Packet} {log log' : List BufferEntry}
      (haddr : pkt.addr = addr port)
      (hrest : Requests addr answers ports (.request port pkt (answers port) :: log) log') :
      Requests addr answers (port :: ports) log log'

/-- The ports on which `sendpkt_event` sends. -/
def tickPorts (b : UpBuffer) : List PortId :=
  banks.filter fun port => b.bufferdataNum port ≤ bufSize

variable {s s' : Upstream} {b : UpBuffer} {answers : PortId → Bool}

/-- `init` sends on every port for the address that the port has before the call, and moves the base
by one packet for each port. -/
theorem answer_init (answers : PortId → Bool) (b : UpBuffer) (log : List BufferEntry) :
    Requests b.portAddr answers banks log (answer answers (b.initHandler 0) log).log ∧
      (answer answers (b.initHandler 0) log).buffer.addr = b.addr + 512 := by
  have hbanks : banks = [0, 1, 2, 3, 4, 5, 6, 7] := rfl
  unfold UpBuffer.initHandler
  rw [hbanks]
  simp only [UpBuffer.initFrom, answer]
  refine ⟨?_, by simp [BitVec.add_assoc]⟩
  refine .next ?_ (.next ?_ (.next ?_ (.next ?_ (.next ?_ (.next ?_ (.next ?_ (.next ?_ .done)))))))
  all_goals
    simp [UpBuffer.readPacket, UpBuffer.portAddr, UpBuffer.countPacket, BitVec.add_assoc, numBanks]

/-- `sendpkt_event` sends for the addresses that the ports have, and leaves the base. -/
theorem answer_sendpktEvent (answers : PortId → Bool) (b : UpBuffer) (log : List BufferEntry) :
    Requests b.portAddr answers (tickPorts b) log
        (answer answers (UpBuffer.sendpktEvent 0 b) log).log ∧
      (answer answers (UpBuffer.sendpktEvent 0 b) log).buffer.addr = b.addr := by
  unfold tickPorts UpBuffer.sendpktEvent
  generalize banks = ports
  -- the loop changes neither the base nor the counters
  suffices h : ∀ b' : UpBuffer, b'.addr = b.addr → b'.bufferdataNum = b.bufferdataNum →
      Requests b.portAddr answers (ports.filter fun port => b.bufferdataNum port ≤ bufSize) log
          (answer answers (UpBuffer.sendpktFrom 0 ports b') log).log ∧
        (answer answers (UpBuffer.sendpktFrom 0 ports b') log).buffer.addr = b.addr from
    h b rfl rfl
  induction ports generalizing log with
  | nil => exact fun b' haddr _ => ⟨.done, haddr⟩
  | cons port ports ih =>
    intro b' haddr hnum
    unfold UpBuffer.sendpktFrom
    rw [hnum]
    split
    · rename_i hfull
      rw [List.filter_cons_of_neg (by simpa using hfull)]
      exact ih log (b'.setRetryReq port true) haddr hnum
    · rename_i hroom
      rw [List.filter_cons_of_pos (by simpa using hroom)]
      have hport : (b'.readPacket (b'.portAddr port)).addr = b.portAddr port := by
        simp [UpBuffer.readPacket, UpBuffer.portAddr, haddr]
      simp only [answer]
      obtain ⟨hrest, hbase⟩ := ih
        (.request port (b'.readPacket (b'.portAddr port)) (answers port) :: log)
        (if answers port = true then b'.countPacket else b'.countPacket.setRetryReq port true)
        (by split <;> exact haddr) (by split <;> exact hnum)
      exact ⟨.next hport hrest, hbase⟩

/-! ## Waiting for the retry -/

/-- A request on `port` was refused and `recvReqRetry` of the port has not been called since. -/
def awaitsRetry (port : PortId) : List BufferEntry → Bool
  | [] => false
  | .request p _ accepted :: log =>
    if p = port then !accepted || awaitsRetry port log else awaitsRetry port log
  | .retryReq p :: log => if p = port then false else awaitsRetry port log
  | .response .. :: log | .retryResp _ :: log => awaitsRetry port log

/-- Every request was made on a port that did not await a retry. -/
def ObeysRetry : List BufferEntry → Prop
  | [] => True
  | .request p _ _ :: log => awaitsRetry p log = false ∧ ObeysRetry log
  | .retryReq _ :: log | .response .. :: log | .retryResp _ :: log => ObeysRetry log

instance decidableObeysRetry : ∀ log, Decidable (ObeysRetry log)
  | [] => .isTrue trivial
  | .request p _ _ :: log =>
    have := decidableObeysRetry log
    inferInstanceAs (Decidable (awaitsRetry p log = false ∧ ObeysRetry log))
  | .retryReq _ :: log | .response .. :: log | .retryResp _ :: log => decidableObeysRetry log

/-- No port on which the step sends without a retry awaits one. -/
def Polite (s : Upstream) : BufferAction → Prop
  | .init _ => ∀ port, awaitsRetry port s.log = false
  | .tick _ => ∀ port, s.buffer.bufferdataNum port ≤ bufSize → awaitsRetry port s.log = false
  | .response .. | .sendData | .retryReq .. => True

/-- One request at each of some ports stays inside the protocol if and only if none of the ports
awaits a retry. -/
theorem Requests.obeys {addr : PortId → Addr} {ports : List PortId} {log log' : List BufferEntry}
    (h : Requests addr answers ports log log') (hports : ports.Nodup) :
    ObeysRetry log' ↔ ObeysRetry log ∧ ∀ port ∈ ports, awaitsRetry port log = false := by
  induction h with
  | done => simp
  | @next port ports pkt log log' haddr hrest ih =>
    obtain ⟨hnot, hnodup⟩ := List.nodup_cons.mp hports
    have hother : ∀ p ∈ ports, awaitsRetry p (.request port pkt (answers port) :: log) =
        awaitsRetry p log := by
      intro p hp
      have hne : port ≠ p := fun h => hnot (h ▸ hp)
      simp [awaitsRetry, hne]
    rw [ih hnodup, ObeysRetry, List.forall_mem_cons, and_assoc, and_left_comm]
    refine and_congr_right fun _ => and_congr_right fun _ => forall_congr' fun p => ?_
    refine forall_congr' fun hp => ?_
    rw [hother p hp]

theorem step_obeys {action : BufferAction} (hstep : step s action = some s') :
    ObeysRetry s'.log ↔ ObeysRetry s.log ∧ Polite s action := by
  cases action with
  | init answers =>
    cases hstep
    rw [(answer_init answers s.buffer s.log).1.obeys (List.nodup_finRange _)]
    simp [Polite, banks]
  | response port pkt =>
    cases hstep
    simp [ObeysRetry, Polite]
  | tick answers =>
    simp only [step] at hstep
    split at hstep
    · cases hstep
      have hrequests := (answer_sendpktEvent answers { s.buffer with tickEvent := false } s.log).1
      rw [hrequests.obeys ((List.nodup_finRange _).filter _)]
      simp [Polite, tickPorts, banks]
    · cases hstep
  | sendData =>
    simp only [step] at hstep
    split at hstep
    · cases hstep
      simp [Polite]
    · cases hstep
  | retryReq port accepted =>
    cases hstep
    simp [UpBuffer.sendRetryReq, answer, ObeysRetry, awaitsRetry, Polite]

/-- The runs in which the buffer always waits for the retry are exactly those in which `init` and
`tickEvent` find no port awaiting a retry among those on which they send. -/
theorem waits_for_retry_iff (name : Nat) (addrInit : Addr) (retryResp : PortId → Bool) :
    Reach (Steps step) Polite (start name addrInit retryResp) s ↔
      Reach (Steps step) Free (start name addrInit retryResp) s ∧ ObeysRetry s.log :=
  Reach.iff_of_step_iff (fun s : Upstream => ObeysRetry s.log) (fun _ => True) trivial trivial
    (fun _ _ _ hstep h => ((step_obeys hstep).mp h).1)
    (fun _ _ _ hstep h _ => (step_obeys hstep).trans (and_iff_right h))
    (fun _ _ _ _ _ _ _ => trivial)

/-- The request on port 1 is refused, and the response on port 0 makes the buffer send there
again without a retry. -/
theorem retry_not_awaited :
    ¬ ∀ s, Reach (Steps step) Free (start 0 0 fun _ => false) s → ObeysRetry s.log := by
  intro h
  obtain ⟨s, hs, hp⟩ := Reach.of_run step Free (start 0 0 fun _ => false)
    [.init fun port => port ≠ 1, .response 0 ⟨0, 0, false⟩, .tick fun _ => true]
    (fun s => ¬ ObeysRetry s.log) (by decide +kernel)
  exact of_decide_eq_true hp (h s hs)

/-! ## Sending the refused request again -/

/-- A request for `a` on `port` was refused since the last retry of the port. -/
def RefusedSince (port : PortId) (a : Addr) : List BufferEntry → Prop
  | [] => False
  | .request p pkt false :: log => (p = port ∧ pkt.addr = a) ∨ RefusedSince port a log
  | .retryReq p :: log => p ≠ port ∧ RefusedSince port a log
  | .request _ _ true :: log | .response .. :: log | .retryResp _ :: log => RefusedSince port a log

/-- If the step is a retry, the buffer sends a request for every address that was refused on the
port since the last retry. -/
def Resends (s : Upstream) : BufferAction → Prop
  | .retryReq port accepted => ∀ s', step s (.retryReq port accepted) = some s' →
      ∃ pkt, s'.log = .request port pkt accepted :: .retryReq port :: s.log ∧
        ∀ a, RefusedSince port a s.log → pkt.addr = a
  | .init _ | .response .. | .tick _ | .sendData => True

/-- `init` is called once, before everything else. -/
def AfterInit (_ : Upstream) : BufferAction → Prop
  | .init _ => False
  | .response .. | .tick _ | .sendData | .retryReq .. => True

/-- The retries come on ports whose request was accepted in `init`. -/
def RetriesAccepted (answers : PortId → Bool) (_ : Upstream) : BufferAction → Prop
  | .retryReq port _ => answers port = true
  | .init _ | .response .. | .tick _ | .sendData => True

/-- The buffer after `init`. -/
def initialised (name : Nat) (addrInit : Addr) (retryResp answers : PortId → Bool) : Upstream :=
  answer answers ((UpBuffer.init name addrInit retryResp).initHandler ⟨0, Nat.one_pos⟩) []

/-- Requests at other ports do not matter, and a request at the port matters if it is refused. -/
theorem Requests.refusedSince {addr : PortId → Addr} {ports : List PortId}
    {log log' : List BufferEntry} (h : Requests addr answers ports log log') (port : PortId)
    (a : Addr) : RefusedSince port a log' ↔
      RefusedSince port a log ∨ port ∈ ports ∧ answers port = false ∧ a = addr port := by
  induction h with
  | done => simp
  | @next p ports pkt log log' haddr _ ih =>
    have hfirst : RefusedSince port a (.request p pkt (answers p) :: log) ↔
        RefusedSince port a log ∨ p = port ∧ answers p = false ∧ a = addr p := by
      cases hanswer : answers p with
      | true => simp [RefusedSince]
      | false => simp [RefusedSince, haddr, or_comm, eq_comm]
    rw [ih, hfirst, List.mem_cons, or_assoc]
    refine or_congr_right ⟨?_, ?_⟩
    · rintro (⟨rfl, hrefused, ha⟩ | ⟨hmem, hrest⟩)
      · exact ⟨Or.inl rfl, hrefused, ha⟩
      · exact ⟨Or.inr hmem, hrest⟩
    · rintro ⟨rfl | hmem, hrest⟩
      · exact Or.inl ⟨rfl, hrest⟩
      · exact Or.inr ⟨hmem, hrest⟩

/-- The refused addresses since the last retry: those that the ports have now, and on the ports that
`init` was refused the address from before `init`. -/
structure Refusals (addrInit : Addr) (answers : PortId → Bool) (s : Upstream) : Prop where
  addr : s.buffer.addr = addrInit + 512
  now : ∀ port a, answers port = true → RefusedSince port a s.log → a = s.buffer.portAddr port
  first : ∀ port, answers port = false →
    RefusedSince port (addrInit + BitVec.ofNat 64 (port.val * 64)) s.log

variable {addrInit : Addr}

/-- Requests for the addresses that the ports have now. -/
theorem Refusals.requests {ports : List PortId} {again : PortId → Bool} {u : Upstream}
    (h : Refusals addrInit answers s)
    (hrequests : Requests s.buffer.portAddr again ports s.log u.log)
    (haddr : u.buffer.addr = s.buffer.addr) : Refusals addrInit answers u where
  addr := haddr.trans h.addr
  now port a haccepted hrefused := by
    have hport : u.buffer.portAddr port = s.buffer.portAddr port := by
      rw [UpBuffer.portAddr, haddr, UpBuffer.portAddr]
    rw [hport]
    rcases (hrequests.refusedSince port a).mp hrefused with hold | ⟨-, -, ha⟩
    · exact h.now port a haccepted hold
    · exact ha
  first port hrefused := (hrequests.refusedSince port _).mpr (Or.inl (h.first port hrefused))

theorem recvTimingResp_addr (b : UpBuffer) (port : PortId) (pkt : Packet) :
    (b.recvTimingResp port pkt).2.addr = b.addr := by
  unfold UpBuffer.recvTimingResp
  split
  · rfl
  · dsimp only
    split
    · rfl
    · rfl

theorem sendData2cal_addr (b : UpBuffer) : b.sendData2cal.addr = b.addr := by
  have hloop : (banks.foldl UpBuffer.popData b).addr = b.addr := by
    refine foldl_invariant (fun b' : UpBuffer => b'.addr = b.addr) ?_ rfl
    intro b' port _ h
    unfold UpBuffer.popData
    split
    · exact h
    · exact h
  unfold UpBuffer.sendData2cal
  dsimp only
  split
  · exact hloop
  · exact hloop

theorem initialised_refusals (name : Nat) (addrInit : Addr) (retryResp answers : PortId → Bool) :
    Refusals addrInit answers (initialised name addrInit retryResp answers) := by
  obtain ⟨hrequests, haddr⟩ :=
    answer_init answers (UpBuffer.init name addrInit retryResp) []
  refine ⟨haddr, fun port a haccepted hrefused => ?_, fun port hrefused => ?_⟩
  · rcases (hrequests.refusedSince port a).mp hrefused with hnone | ⟨-, hfalse, -⟩
    · exact hnone.elim
    · rw [haccepted] at hfalse
      cases hfalse
  · exact (hrequests.refusedSince port _).mpr (Or.inr ⟨List.mem_finRange port, hrefused, rfl⟩)

theorem step_refusals {action : BufferAction} (hstep : step s action = some s')
    (hs : Refusals addrInit answers s) (hafter : AfterInit s action)
    (haccepted : RetriesAccepted answers s action) : Refusals addrInit answers s' := by
  cases action with
  | init again => exact hafter.elim
  | response port pkt =>
    cases hstep
    have haddr := recvTimingResp_addr s.buffer port pkt
    refine ⟨haddr.trans hs.addr, fun p a hp hrefused => ?_, hs.first⟩
    rw [UpBuffer.portAddr, haddr]
    exact hs.now p a hp hrefused
  | tick again =>
    simp only [step] at hstep
    split at hstep
    · cases hstep
      obtain ⟨hrequests, haddr⟩ :=
        answer_sendpktEvent again { s.buffer with tickEvent := false } s.log
      exact hs.requests hrequests haddr
    · cases hstep
  | sendData =>
    simp only [step] at hstep
    split at hstep
    · cases hstep
      have haddr := sendData2cal_addr { s.buffer with sendDataRetryrespEvent := false }
      refine ⟨haddr.trans hs.addr, fun p a hp hrefused => ?_, hs.first⟩
      rw [UpBuffer.portAddr, haddr]
      exact hs.now p a hp hrefused
    · cases hstep
  | retryReq port accepted =>
    cases hstep
    have hother : ∀ p a, RefusedSince p a (.retryReq port :: s.log) → RefusedSince p a s.log :=
      fun p a h => h.2
    have hcleared : Refusals addrInit answers ⟨s.buffer, .retryReq port :: s.log⟩ := by
      refine ⟨hs.addr, fun p a hp hrefused => hs.now p a hp (hother p a hrefused),
        fun p hp => ⟨?_, hs.first p hp⟩⟩
      rintro rfl
      rw [RetriesAccepted, hp] at haccepted
      cases haccepted
    have hrequests : Requests s.buffer.portAddr (fun _ => accepted) [port]
        (.retryReq port :: s.log)
        (answer (fun _ => accepted) (s.buffer.sendRetryReq 0 port)
          (.retryReq port :: s.log)).log := by
      rw [UpBuffer.sendRetryReq, answer, answer]
      exact .next rfl .done
    exact hcleared.requests hrequests rfl

/-- A retry sends for the refused addresses if and only if `init` was accepted on the port. -/
theorem resends_iff {action : BufferAction} (hs : Refusals addrInit answers s) :
    RetriesAccepted answers s action ↔ Resends s action := by
  cases action with
  | init | response | tick | sendData => exact Iff.rfl
  | retryReq port accepted =>
    constructor
    · intro haccepted s' hstep
      cases hstep
      refine ⟨_, rfl, fun a hrefused => ?_⟩
      exact (hs.now port a haccepted hrefused).symm
    · intro hresends
      obtain ⟨pkt, hlog, hsame⟩ := hresends _ rfl
      rw [RetriesAccepted, ← Bool.not_eq_false]
      intro hrefused
      -- the base moved by 512 after the refused request
      have hpkt : pkt.addr = s.buffer.portAddr port := by
        simp only [UpBuffer.sendRetryReq, answer, List.cons.injEq,
          BufferEntry.request.injEq] at hlog
        rw [← hlog.1.2.1]
        rfl
      have hfirst := hsame _ (hs.first port hrefused)
      rw [hpkt, UpBuffer.portAddr, hs.addr] at hfirst
      bv_omega

/-- **Retries.** After `init`, with any answers to its requests: the runs in which every retry sends
for every address that was refused on its port since the last retry are exactly the runs in which
no retry comes on a port where `init` was refused. -/
theorem refused_request_resent_iff (name : Nat) (addrInit : Addr)
    (retryResp answers : PortId → Bool) :
    Reach (Steps step) (fun s action => AfterInit s action ∧ RetriesAccepted answers s action)
        (initialised name addrInit retryResp answers) s ↔
      Reach (Steps step) (fun s action => AfterInit s action ∧ Resends s action)
        (initialised name addrInit retryResp answers) s :=
  Reach.congr_of_invariant (Refusals addrInit answers)
    (initialised_refusals name addrInit retryResp answers)
    (fun _ _ _ hstep hs hok => step_refusals hstep hs hok.1 hok.2)
    (fun _ _ hs => and_congr_right fun _ => resends_iff hs)

/-- `init` is refused on port 0 for address 0; the retry of that port sends for address 512. -/
theorem refused_request_replaced :
    step (start 0 0 fun _ => false) (.init fun port => port ≠ 0) =
        some (initialised 0 0 (fun _ => false) fun port => port ≠ 0) ∧
      RefusedSince 0 0 (initialised 0 0 (fun _ => false) fun port => port ≠ 0).log ∧
      (∃ s', step (initialised 0 0 (fun _ => false) fun port => port ≠ 0) (.retryReq 0 true) =
        some s' ∧ ∃ pkt, s'.log.head? = some (.request 0 pkt true) ∧ pkt.addr = 512) ∧
      ¬ Resends (initialised 0 0 (fun _ => false) fun port => port ≠ 0) (.retryReq 0 true) := by
  have hs := initialised_refusals 0 0 (fun _ => false) (fun port => port ≠ 0)
  refine ⟨rfl, hs.first 0 rfl, ⟨_, rfl, _, rfl, by decide⟩, fun hresends => ?_⟩
  exact absurd ((resends_iff hs).mpr hresends) (by simp [RetriesAccepted])

end Upstream

end NetSim.Buffer
