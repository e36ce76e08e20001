import NetSim.System.Traffic

/-!
# Requests stay on their channel

Every handler of the network keeps the requests on their bank and the transactions in flight in the
object of their channel (`Consistent`). So a completion, which is dispatched by its address, comes
back to the object that recorded the transaction.
-/

namespace NetSim.System

open Common Library Event Arbiter Dram Buffer

section Handlers

variable {υ μ : Type} {c : Config} {M : MemorySystem μ} {U : Upstreams c.numUpstreams υ}
  {pool : Multiset Completion} {w w' : World (Outside υ μ)} {bank : Bank} {pkt : Packet}

/-! ## Requests -/

theorem Outside.scheduleAt_frame (o : Outside υ μ) (e : EventId) (t : Tick) :
    (o.scheduleAt e t).drams = o.drams ∧ (o.scheduleAt e t).memory = o.memory ∧
      (o.scheduleAt e t).upstream = o.upstream := by
  unfold Outside.scheduleAt
  split
  · exact ⟨rfl, rfl, rfl⟩
  · exact ⟨rfl, rfl, rfl⟩

theorem Outside.schedule_frame (o : Outside υ μ) (e : EventId) :
    (o.schedule e).drams = o.drams ∧ (o.schedule e).memory = o.memory ∧
      (o.schedule e).upstream = o.upstream :=
  o.scheduleAt_frame e _

/-- The two worlds differ in the flags of the arbiter and in the queue only. -/
structure SameTraffic (w w' : World (Outside υ μ)) : Prop where
  inBufs : w'.arb.inBufs = w.arb.inBufs
  log : w'.log = w.log
  drams : w'.rest.drams = w.rest.drams
  memory : w'.rest.memory = w.rest.memory
  upstream : w'.rest.upstream = w.rest.upstream

theorem SameTraffic.setArb {a : DramArb} (h : a.inBufs = w.arb.inBufs) :
    SameTraffic w (w.setArb a) :=
  ⟨h, rfl, rfl, rfl, rfl⟩

theorem scheduleArbEvent_sameTraffic (w : World (Outside υ μ)) :
    SameTraffic w (scheduleArbEvent c (peers c M U) w) := by
  unfold scheduleArbEvent
  split
  · exact ⟨rfl, rfl, rfl, rfl, rfl⟩
  · obtain ⟨hdrams, hmemory, hupstream⟩ := w.rest.schedule_frame (.arb .arb)
    exact ⟨rfl, rfl, hdrams, hmemory, hupstream⟩

theorem scheduleSendResponseEvent_sameTraffic (w : World (Outside υ μ)) :
    SameTraffic w (scheduleSendResponseEvent c (peers c M U) w) := by
  unfold scheduleSendResponseEvent
  split
  · exact ⟨rfl, rfl, rfl, rfl, rfl⟩
  · obtain ⟨hdrams, hmemory, hupstream⟩ := w.rest.schedule_frame (.arb .sendResponse)
    exact ⟨rfl, rfl, hdrams, hmemory, hupstream⟩

theorem accessAndRespond_sameTraffic (bank : Bank) (pkt : Packet) (up : Nat)
    (w : World (Outside υ μ)) :
    SameTraffic w (Arbiter.accessAndRespond c (peers c M U) bank pkt up w) :=
  have hsame := scheduleSendResponseEvent_sameTraffic (c := c) (M := M) (U := U)
    (w.setArb (w.arb.pushResponse bank pkt up))
  ⟨hsame.inBufs, hsame.log, hsame.drams, hsame.memory, hsame.upstream⟩

theorem acceptRequest_inBufs {a a' : DramArb} {up : Nat}
    (haccept : acceptRequest c a pkt bank up = some a') {kind : Kind} {b : Bank} {u : Nat}
    {p : Packet} (hmem : p ∈ a'.inBufs kind b u) :
    p ∈ a.inBufs kind b u ∨ b = bank ∧ p = pkt := by
  have hpush {k : Kind} (hmem : p ∈ (a.pushInBuf k bank up pkt).inBufs kind b u) :
      p ∈ a.inBufs kind b u ∨ b = bank ∧ p = pkt := by
    rcases DramArb.mem_pushInBuf hmem with hmem | ⟨hp, -, hb⟩
    · exact Or.inl hmem
    · exact Or.inr ⟨hb, hp⟩
  rcases acceptRequest_cases haccept with ⟨-, -, rfl⟩ | ⟨-, -, rfl⟩
  · exact hpush hmem
  · exact hpush hmem

theorem recvTimingReqUp_traffic (up : Nat) (hpkt : OnBank bank pkt) (h : Traffic pool w) :
    Traffic pool (recvTimingReqUp c (peers c M U) pkt bank up w).2 ∧
      (recvTimingReqUp c (peers c M U) pkt bank up w).2.rest.memory = w.rest.memory ∧
      (recvTimingReqUp c (peers c M U) pkt bank up w).2.rest.upstream = w.rest.upstream := by
  unfold recvTimingReqUp
  cases haccept : acceptRequest c w.arb pkt bank up with
  | none =>
    refine ⟨?_, rfl, rfl⟩
    exact h.request up false hpkt rfl (fun _ _ _ _ hmem => Or.inl hmem) rfl
  | some a =>
    have hsame := scheduleArbEvent_sameTraffic (c := c) (M := M) (U := U) (w.setArb a)
    refine ⟨?_, hsame.memory, hsame.upstream⟩
    refine h.request up true hpkt ?_ ?_ hsame.drams
    · exact congrArg (PortEvent.request bank up pkt true :: ·) hsame.log
    · intro kind b u p hmem
      have hbufs : (World.note (scheduleArbEvent c (peers c M U) (w.setArb a))
        (.request bank up pkt true)).arb.inBufs = a.inBufs := hsame.inBufs
      rw [hbufs] at hmem
      exact acceptRequest_inBufs haccept hmem

/-- What an upstream does: its requests are on their banks, and nothing else moves. -/
theorem embed_run_traffic {ρ : Type} {post : υ → Prop} {r : Reaction c.numUpstreams υ ρ}
    (hr : Reaction.Ensures post r) (h : Traffic pool w) :
    Traffic pool ((embed r w.rest).run c (peers c M U) w).2 ∧
      ((embed r w.rest).run c (peers c M U) w).2.rest.memory = w.rest.memory ∧
      post ((embed r w.rest).run c (peers c M U) w).2.rest.upstream := by
  induction r generalizing w with
  | done result u => exact ⟨h.of_eq rfl rfl rfl, rfl, hr⟩
  | request bank up pkt u next ih =>
    let w₁ : World (Outside υ μ) := { w with rest := { w.rest with upstream := u } }
    have h₁ : Traffic pool w₁ := h.of_eq rfl rfl rfl
    obtain ⟨h₂, hmemory₂, hupstream₂⟩ :=
      recvTimingReqUp_traffic (c := c) (M := M) (U := U) up hr.1 h₁
    have hnext : Reaction.Ensures post (next (recvTimingReqUp c (peers c M U) pkt bank up w₁).1
        (recvTimingReqUp c (peers c M U) pkt bank up w₁).2.rest.upstream) := by
      rw [hupstream₂]
      exact hr.2 _
    obtain ⟨h₃, hmemory₃, hpost⟩ := ih _ _ hnext h₂
    exact ⟨h₃, hmemory₃.trans hmemory₂, hpost⟩

/-! ## Arbitration -/

variable {inFlight : μ → Multiset Completion}

theorem setRetryReq_sameReads (flag : Bool) (d : DRAMsim3) : SameReads d (d.setRetryReq flag) :=
  ⟨rfl, rfl, rfl⟩

/-- The memory model takes the head of a buffer. -/
theorem offered_taken_traffic (hM : AtMostOnce M inFlight) (kind : Kind) (up : Nat)
    (hpkt : OnBank bank pkt) (h : Traffic (inFlight w.rest.memory) w)
    (hanswer : (M.willAcceptTransaction pkt.addr pkt.isWrite w.rest.memory).1 = true) :
    let r := offered c (peers c M U) bank pkt w
    let v := r.2.setArb (r.2.arb.popInBuf c kind bank up)
    r.1 = true ∧ Traffic (inFlight v.rest.memory) v ∧ v.rest.upstream = w.rest.upstream := by
  simp only [offered, peers, recvTimingReq, host, hanswer, if_true]
  refine ⟨trivial, ?_, rfl⟩
  have hpool : inFlight (M.addTransaction pkt.addr pkt.isWrite
      (M.willAcceptTransaction pkt.addr pkt.isWrite w.rest.memory).2) ≤
      ⟨pkt.addr, pkt.isWrite⟩ ::ₘ inFlight w.rest.memory :=
    (hM.add _ _ _).trans (Multiset.cons_le_cons _ (hM.ask _ _ _))
  exact (h.taken hpkt rfl (fun _ _ _ _ hmem => DramArb.mem_popInBuf hmem) rfl).mono hpool

/-- The memory model refuses the head of a buffer. -/
theorem offered_refused_traffic (hM : AtMostOnce M inFlight) (hpkt : OnBank bank pkt)
    (h : Traffic (inFlight w.rest.memory) w)
    (hanswer : (M.willAcceptTransaction pkt.addr pkt.isWrite w.rest.memory).1 = false) :
    let r := offered c (peers c M U) bank pkt w
    r.1 = false ∧ Traffic (inFlight r.2.rest.memory) r.2 ∧
      r.2.rest.upstream = w.rest.upstream := by
  let o : Outside υ μ := { w.rest with
    memory := (M.willAcceptTransaction pkt.addr pkt.isWrite w.rest.memory).2 }
  obtain ⟨hdrams, hmemory, hupstream⟩ := o.schedule_frame (.dram bank .tick)
  simp only [offered, peers, recvTimingReq, host, hanswer, Bool.false_eq_true, if_false,
    Host.modify]
  refine ⟨trivial, ?_, hupstream⟩
  have hpool : inFlight (o.schedule (.dram bank .tick)).memory ≤ inFlight w.rest.memory := by
    rw [hmemory]
    exact hM.ask _ _ _
  refine (h.mono hpool).refused hpkt rfl rfl fun b => ?_
  show SameReads _ (Function.update (o.schedule (.dram bank .tick)).drams bank _ b)
  rw [hdrams]
  by_cases hb : b = bank
  · subst hb
    rw [Function.update_self]
    exact setRetryReq_sameReads true _
  · rw [Function.update_of_ne hb]
    exact ⟨rfl, rfl, rfl⟩

/-- The turn of a bank. -/
theorem offerAll_traffic (hM : AtMostOnce M inFlight) (hs : List Head)
    (hheads : ∀ head ∈ hs, OnBank bank head.pkt) (h : Traffic (inFlight w.rest.memory) w) :
    Traffic (inFlight (offerAll c (peers c M U) bank hs w).2.rest.memory)
        (offerAll c (peers c M U) bank hs w).2 ∧
      (offerAll c (peers c M U) bank hs w).2.rest.upstream = w.rest.upstream := by
  induction hs generalizing w with
  | nil => exact ⟨h, rfl⟩
  | cons head hs ih =>
    have hpkt := hheads head List.mem_cons_self
    cases hanswer : (M.willAcceptTransaction head.pkt.addr head.pkt.isWrite w.rest.memory).1 with
    | true =>
      obtain ⟨htaken, htraffic, hupstream⟩ := offered_taken_traffic (c := c) (U := U) hM head.kind
        head.up hpkt h hanswer
      simp only [offerAll, htaken, if_true]
      exact ⟨htraffic, hupstream⟩
    | false =>
      obtain ⟨hrefused, htraffic, hupstream⟩ := offered_refused_traffic (c := c) (U := U) hM hpkt h
        hanswer
      obtain ⟨hrest, hrestUp⟩ := ih (fun x hx => hheads x (List.mem_cons_of_mem _ hx)) htraffic
      simp only [offerAll, hrefused, Bool.false_eq_true, if_false]
      exact ⟨hrest, hrestUp.trans hupstream⟩

/-! ## Completions -/

theorem dram_accessAndRespond_frame (M : MemorySystem μ) (bank : Bank) (pkt : Packet)
    (w : World (Outside υ μ)) :
    let v := Dram.accessAndRespond (worldHost M bank) pkt w
    v.toCore = w.toCore ∧ v.rest.memory = w.rest.memory ∧ v.rest.upstream = w.rest.upstream ∧
      v.rest.drams =
        Function.update w.rest.drams bank ((w.rest.drams bank).pushResponse pkt) := by
  unfold Dram.accessAndRespond
  dsimp only
  split
  · obtain ⟨hdrams, hmemory, hupstream⟩ :=
      ((worldHost M bank).modify (·.pushResponse pkt) w).rest.schedule_frame
        (.dram bank .sendResponse)
    exact ⟨rfl, hmemory, hupstream, hdrams⟩
  · exact ⟨rfl, rfl, rfl, rfl⟩

/-- A read that the memory model completes. -/
theorem complete_traffic (hchannel : ∀ a, M.getChannel a = channelOf a) {t : Completion}
    (h : Traffic (t ::ₘ pool) w) (hrun : complete M w t = .ok w') :
    Traffic pool w' ∧ w'.toCore = w.toCore ∧ w'.rest.memory = w.rest.memory ∧
      w'.rest.upstream = w.rest.upstream := by
  obtain ⟨hread, -⟩ := h.found
  unfold complete at hrun
  rw [hchannel, hread] at hrun
  obtain ⟨pkt, rest, hlook, hcredit, rfl⟩ := readComplete_ok hrun
  have hget : (w.rest.drams (channelOf t.addr)).outstandingReads.get t.addr = pkt :: rest := by
    have hlook : (w.rest.drams (channelOf t.addr)).outstandingReads.lookup t.addr = _ := hlook
    simp [QueueMap.get, hlook]
  obtain ⟨hcore, hmemory, hupstream, hdrams⟩ := dram_accessAndRespond_frame M (channelOf t.addr) pkt
    ((worldHost M (channelOf t.addr)).modify (·.dropRead t.addr) w)
  refine ⟨?_, hcore, hmemory, hupstream⟩
  obtain ⟨addr, isWrite⟩ := t
  subst hread
  refine h.completed hget hcredit ?_ ?_ ?_
  · exact congrArg Core.log hcore
  · exact congrArg (fun s : Core => s.arb.inBufs) hcore
  · rw [hdrams]
    simp only [Host.modify, worldHost, host, Function.update_self, Function.update_idem]

/-- The callbacks during one `ClockTick`. -/
theorem completions_traffic (hchannel : ∀ a, M.getChannel a = channelOf a) (ts : List Completion)
    (h : Traffic ((ts : Multiset Completion) + pool) w)
    (hrun : ts.foldlM (complete M) w = .ok w') :
    Traffic pool w' ∧ w'.toCore = w.toCore ∧ w'.rest.memory = w.rest.memory ∧
      w'.rest.upstream = w.rest.upstream := by
  induction ts generalizing w with
  | nil =>
    cases hrun
    exact ⟨h.mono (by simp), rfl, rfl, rfl⟩
  | cons t ts ih =>
    rw [← Multiset.cons_coe, Multiset.cons_add] at h
    rw [List.foldlM_cons] at hrun
    cases hfirst : complete M w t with
    | error e =>
      rw [hfirst] at hrun
      cases hrun
    | ok v =>
      rw [hfirst] at hrun
      obtain ⟨hv, hcore, hmemory, hupstream⟩ := complete_traffic hchannel h hfirst
      obtain ⟨hw', hcore', hmemory', hupstream'⟩ := ih hv hrun
      exact ⟨hw', hcore'.trans hcore, hmemory'.trans hmemory, hupstream'.trans hupstream⟩

/-- Fewer than `2 ^ 32` reads of every bank are with the downstream. -/
def RoomForCounters (log : Log) : Prop :=
  ∀ bank, (sentOn bank log).length < 2 ^ 32 + (answeredOn bank log).length

theorem complete_ok (hchannel : ∀ a, M.getChannel a = channelOf a) {t : Completion}
    (h : Traffic (t ::ₘ pool) w) (hroom : RoomForCounters w.log) :
    ∃ v, complete M w t = .ok v := by
  obtain ⟨hread, pkt, rest, hget⟩ := h.found
  obtain ⟨hcounter, hbalance⟩ := h.account (channelOf t.addr)
  have hpop := QueueMap.total_pop (m := (w.rest.drams (channelOf t.addr)).outstandingReads)
    (k := t.addr) (by simp [hget])
  have hlt := hroom (channelOf t.addr)
  have hcredit : (w.rest.drams (channelOf t.addr)).nbrOutstandingReads ≠ 0 := by omega
  have hlook : ((worldHost M (channelOf t.addr)).dram w).outstandingReads.lookup t.addr =
      some (pkt :: rest) := QueueMap.lookup_eq_some_of_get hget
  have hcredit : ((worldHost M (channelOf t.addr)).dram w).nbrOutstandingReads ≠ 0 := hcredit
  unfold complete
  rw [hchannel, hread]
  simp only [Bool.false_eq_true, if_false, readComplete, hlook, hcredit]
  exact ⟨_, rfl⟩

theorem completions_ok (hchannel : ∀ a, M.getChannel a = channelOf a) (ts : List Completion)
    (h : Traffic ((ts : Multiset Completion) + pool) w) (hroom : RoomForCounters w.log) :
    ∃ v, ts.foldlM (complete M) w = .ok v := by
  induction ts generalizing w with
  | nil => exact ⟨w, rfl⟩
  | cons t ts ih =>
    rw [← Multiset.cons_coe, Multiset.cons_add] at h
    obtain ⟨v, hfirst⟩ := complete_ok hchannel h hroom
    obtain ⟨hv, hcore, -, -⟩ := complete_traffic hchannel h hfirst
    have hlog : v.log = w.log := congrArg Core.log hcore
    rw [← hlog] at hroom
    obtain ⟨v', hrest⟩ := ih hv hroom
    refine ⟨v', ?_⟩
    rw [List.foldlM_cons, hfirst]
    exact hrest

end Handlers

/-! ## The handlers of the network -/

/-- The traffic is in order, and the buffers are aligned. -/
structure Consistent {n : Nat} {μ : Type} (inFlight : μ → Multiset Completion)
    (w : World (Outside (Buffers n) μ)) : Prop where
  traffic : Traffic (inFlight w.rest.memory) w
  buffers : ∀ x, Aligned (w.rest.upstream x)

section Network

variable {μ : Type} {c : Config} {M : MemorySystem μ} {inFlight : μ → Multiset Completion}
  {w w' : World (Outside (Buffers c.numUpstreams) μ)} {bank : Bank} {pkt : Packet}

namespace Consistent

theorem frame (h : Consistent inFlight w) (hsame : SameTraffic w w') : Consistent inFlight w' := by
  refine ⟨?_, ?_⟩
  · rw [hsame.memory]
    exact h.traffic.of_eq hsame.inBufs hsame.log hsame.drams
  · rw [hsame.upstream]
    exact h.buffers

theorem note (h : Consistent inFlight w) {e : PortEvent} (he : Quiet e) :
    Consistent inFlight (w.note e) :=
  ⟨h.traffic.note he, h.buffers⟩

theorem modify (h : Consistent inFlight w) (M : MemorySystem μ) (bank : Bank)
    {f : DRAMsim3 → DRAMsim3} (hf : ∀ d, SameReads d (f d)) :
    Consistent inFlight ((worldHost M bank).modify f w) :=
  ⟨h.traffic.modify M bank hf, h.buffers⟩

/-- What a buffer does from inside a call. -/
theorem react {ρ : Type} (h : Consistent inFlight w)
    {r : Reaction c.numUpstreams (Buffers c.numUpstreams) ρ}
    (hr : Reaction.Ensures (fun u => ∀ x, Aligned (u x)) r) :
    Consistent inFlight ((embed r w.rest).run c (peers c M upBuffers) w).2 := by
  obtain ⟨htraffic, hmemory, hbuffers⟩ :=
    embed_run_traffic (c := c) (M := M) (U := upBuffers) hr h.traffic
  rw [← hmemory] at htraffic
  exact ⟨htraffic, hbuffers⟩

theorem runHandler (h : Consistent inFlight w) (up : Fin c.numUpstreams)
    {handler : UpBuffer → Reaction c.numUpstreams UpBuffer Unit}
    (hhandler : Reaction.Ensures Aligned (handler (w.rest.upstream up))) :
    Consistent inFlight (runHandler c M up handler w) :=
  h.react (lift_ensures hhandler fun x _ => h.buffers x)

theorem arbitrate (h : Consistent inFlight w) (hM : AtMostOnce M inFlight) :
    Consistent inFlight (arbitrate c (peers c M upBuffers) w) := by
  have hloop : Consistent inFlight (rounds c (peers c M upBuffers) w).world := by
    refine foldl_invariant
      (fun r : Round (Outside (Buffers c.numUpstreams) μ) => Consistent inFlight r.world) ?_ h
    intro r bank _ hr
    rw [arbitrateStep_eq]
    have hheads : ∀ head ∈ offers c r.world.arb bank, OnBank bank head.pkt := by
      intro head hmem
      obtain ⟨-, rest, hhead⟩ := mem_offers hmem
      exact hr.traffic.inBufs head.kind bank head.up head.pkt (by simp [hhead])
    obtain ⟨htraffic, hupstream⟩ :=
      offerAll_traffic (c := c) (U := upBuffers) hM _ hheads hr.traffic
    refine ⟨htraffic, ?_⟩
    rw [hupstream]
    exact hr.buffers
  unfold Arbiter.arbitrate
  dsimp only
  split
  · exact hloop.frame (scheduleArbEvent_sameTraffic _)
  · exact hloop

/-! ### Responses to the buffers -/

theorem recvTimingResp_ensures {u : Buffers c.numUpstreams} (hu : ∀ x, Aligned (u x)) (bank : Bank)
    (up : Nat) (pkt : Packet) :
    Reaction.Ensures (fun u' => ∀ x, Aligned (u' x)) (upBuffers.recvTimingResp bank up pkt u) := by
  simp only [upBuffers]
  split
  · rename_i hup
    intro x
    by_cases hx : x = ⟨up, hup⟩
    · subst hx
      rw [Function.update_self]
      exact recvTimingResp_aligned bank pkt (hu _)
    · rw [Function.update_of_ne hx]
      exact hu x
  · exact hu

theorem recvReqRetry_ensures {u : Buffers c.numUpstreams} (hu : ∀ x, Aligned (u x)) (bank : Bank)
    (up : Nat) :
    Reaction.Ensures (fun u' => ∀ x, Aligned (u' x)) (upBuffers.recvReqRetry bank up u) := by
  simp only [upBuffers]
  split
  · rename_i hup
    exact lift_ensures (sendRetryReq_ensures _ bank (hu _)) fun x _ => hu x
  · exact hu

theorem passClosed :
    PassClosed c (peers c M upBuffers) (Consistent (μ := μ) inFlight) where
  sendTimingResp w bank up pkt h :=
    (h.react (recvTimingResp_ensures h.buffers bank up pkt)).note trivial
  sendRetryReq w bank up h := by
    have hnote : Consistent inFlight (w.note (.retryReq bank up)) := h.note trivial
    exact hnote.react (recvReqRetry_ensures h.buffers bank up)
  schedule w h := h.frame (scheduleSendResponseEvent_sameTraffic w)
  popResponse w bank h := h.frame (.setArb rfl)
  setRetryReq w bank up flag h := h.frame (.setArb rfl)
  setRetryResp w bank up flag h := h.frame (.setArb rfl)

/-! ### The memory objects -/

theorem tick (h : Consistent inFlight w) (bank : Bank) :
    Consistent inFlight
      (tick (worldHost M bank) (handleReqRetry c (peers c M upBuffers) bank) w) := by
  unfold Dram.tick
  split
  · have hclear := h.modify M bank (setRetryReq_sameReads false)
    exact (hclear.note (e := .reqRetry bank) trivial).frame (scheduleArbEvent_sameTraffic _)
  · exact h

/-- The arbiter takes every response of a memory object. -/
theorem dramSendResponse (h : Consistent inFlight w)
    (hrun : Dram.sendResponse (worldHost M bank) (respond c M upBuffers bank) w = .ok w') :
    Consistent inFlight w' := by
  obtain ⟨-, pkt, rest, success, v, hqueue, hsend, rfl⟩ := sendResponse_ok hrun
  obtain ⟨rfl, hrecv⟩ := respond_ok hsend
  obtain ⟨resPkt, reads, up, ups, -, -, -, rfl⟩ := recvTimingResp_cases hrecv
  let w₁ := (w.setArb (w.arb.dropRecord bank pkt.addr)).note (.response bank pkt)
  let v := Arbiter.accessAndRespond c (peers c M upBuffers) bank resPkt up w₁
  have hsame : SameTraffic w₁ v := accessAndRespond_sameTraffic bank resPkt up w₁
  have hdrams : v.rest.drams = w.rest.drams := hsame.drams
  have htraffic : Traffic (inFlight w.rest.memory) ((worldHost M bank).modify
      (fun d => if true then d.popResponse else d.setRetryResp true) v) := by
    refine h.traffic.answered hqueue hsame.log hsame.inBufs ?_
    show Function.update v.rest.drams bank (v.rest.drams bank).popResponse = _
    rw [hdrams]
  have hmemory : v.rest.memory = w.rest.memory := hsame.memory
  have hupstream : v.rest.upstream = w.rest.upstream := hsame.upstream
  refine ⟨?_, ?_⟩
  · rw [← hmemory] at htraffic
    exact htraffic
  · intro x
    show Aligned (v.rest.upstream x)
    rw [hupstream]
    exact h.buffers x

/-- The transactions that a `ClockTick` reports, and those that stay in flight. -/
theorem clockTick (h : Consistent inFlight w) (hM : AtMostOnce M inFlight) :
    Traffic (((M.clockTick w.rest.memory).1 : Multiset Completion) +
        inFlight (M.clockTick w.rest.memory).2)
      { w with rest := { w.rest with memory := (M.clockTick w.rest.memory).2 } } :=
  (h.traffic.mono (hM.clock _)).of_eq rfl rfl rfl

theorem wrapperTick (h : Consistent inFlight w) (hM : AtMostOnce M inFlight)
    (hchannel : ∀ a, M.getChannel a = channelOf a) (hrun : wrapperTick M w = .ok w') :
    Consistent inFlight w' := by
  obtain ⟨v, hdone, rfl⟩ := wrapperTick_ok hrun
  obtain ⟨htraffic, -, hmemory, hupstream⟩ :=
    completions_traffic hchannel _ (h.clockTick hM) hdone
  have hv : Consistent inFlight v := by
    refine ⟨?_, ?_⟩
    · rw [hmemory]
      exact htraffic
    · rw [hupstream]
      exact h.buffers
  split
  · exact hv
  · obtain ⟨hdrams, hmemory, hupstream⟩ := v.rest.schedule_frame .wrapperTick
    exact hv.frame ⟨rfl, rfl, hdrams, hmemory, hupstream⟩

/-! ### Steps -/

theorem process (h : Consistent inFlight w) (hM : AtMostOnce M inFlight)
    (hchannel : ∀ a, M.getChannel a = channelOf a) {e : EventId}
    (hrun : process c M upBuffers w e = .ok w') : Consistent inFlight w' := by
  cases e with
  | arb e =>
    cases e with
    | arb =>
      cases hrun
      have hclear : Consistent inFlight w.clearArbEvent := h.frame (.setArb rfl)
      exact hclear.arbitrate hM
    | sendResponse =>
      cases hrun
      have hclear : Consistent inFlight w.clearSendResponseEvent := h.frame (.setArb rfl)
      exact passClosed.pass hclear
  | dram bank e =>
    cases e with
    | tick =>
      cases hrun
      exact h.tick bank
    | sendResponse => exact h.dramSendResponse hrun
  | wrapperTick => exact h.wrapperTick hM hchannel hrun

theorem setQueue (h : Consistent inFlight w) (q : EventQueue EventId) :
    Consistent inFlight (setQueue q w) :=
  h.frame ⟨rfl, rfl, rfl, rfl, rfl⟩

theorem serviceOne (h : Consistent inFlight w) (hM : AtMostOnce M inFlight)
    (hchannel : ∀ a, M.getChannel a = channelOf a)
    (hstep : step c M upBuffers w .serviceOne = some w') : Consistent inFlight w' := by
  obtain ⟨e, q, htake, hprocess⟩ := step_serviceOne hstep
  exact (h.setQueue q).process hM hchannel hprocess

theorem advance (h : Consistent inFlight w) {t : Tick}
    (hstep : step c M upBuffers w (.advance t) = some w') : Consistent inFlight w' := by
  obtain rfl := step_advance hstep
  exact h.setQueue _

end Consistent

/-! ## Runs -/

theorem Network.does_consistent {s s' : Network c.numUpstreams μ} (hM : AtMostOnce M inFlight)
    (hchannel : ∀ a, M.getChannel a = channelOf a) (hs : Consistent inFlight s.world)
    (hdoes : Network.Does c M s s') : Consistent inFlight s'.world := by
  cases hdoes with
  | @init up toInit htodo => exact hs.runHandler up (initHandler_ensures up (hs.buffers up))
  | tick up => exact hs.runHandler up (sendpktFrom_ensures up banks (hs.buffers up))
  | sendData up => exact hs.runHandler up (sendData2cal_aligned (hs.buffers up))
  | serviceOne hstep => exact hs.serviceOne hM hchannel hstep
  | advance hstep => exact hs.advance hstep

theorem Network.start_consistent {m : μ} (hm : inFlight m = 0)
    {addrInit : Fin c.numUpstreams → Addr} (haligned : ∀ up, 512 ∣ (addrInit up).toNat)
    (retryResp : Fin c.numUpstreams → PortId → Bool) :
    Consistent inFlight (Network.start c addrInit retryResp m).world := by
  let u : Buffers c.numUpstreams := fun up => .init up (addrInit up) (retryResp up)
  let o : Outside (Buffers c.numUpstreams) μ :=
    { queue := .init fun _ => 0, drams := fun _ => .init, memory := m, upstream := u,
      failed := false }
  have hempty : Traffic (inFlight m) (World.init o) := by
    rw [hm]
    exact {
      log := fun _ hmem => absurd hmem List.not_mem_nil
      inBufs := fun _ _ _ _ hmem => absurd hmem List.not_mem_nil
      account := fun _ => ⟨rfl, rfl⟩
      reads := fun _ => Nat.zero_le _
      writes := fun _ => Multiset.notMem_zero _ }
  have hbuffers : ∀ up, Aligned (u up) := fun up => Nat.mod_eq_zero_of_dvd (haligned up)
  have hinit : Consistent inFlight (World.init o) := ⟨hempty, hbuffers⟩
  obtain ⟨hdrams, hmemory, hupstream⟩ := o.scheduleAt_frame .wrapperTick 0
  exact hinit.frame ⟨rfl, rfl, hdrams, hmemory, hupstream⟩

/-- For `buf_size` at least zero the credit of the arbiter bounds the reads of a memory object. -/
theorem Network.roomForCounters {s : Network c.numUpstreams μ} (hbuf : 0 ≤ c.bufSize)
    {addrInit : Fin c.numUpstreams → Addr} {retryResp : Fin c.numUpstreams → PortId → Bool} {m : μ}
    (h : Reach (Steps (Network.step c M)) Free (.start c addrInit retryResp m) s) :
    RoomForCounters s.world.log := by
  have hrun := reach_arbiterRun (Network.reach_system h)
  have hcredit : Credit c s.world.toCore :=
    reach_invariant credit_init (fun _ _ m hs => Credit.move hbuf hs m) hrun
  have hflow : Ledger c s.world.toCore ∧ Flow c s.world.toCore :=
    reach_invariant (I := fun s => Ledger c s ∧ Flow c s) ⟨ledger_init, flow_init⟩
      (fun _ _ m hs => ⟨hs.1.move m, hs.2.move hs.1 m⟩) hrun
  have hlimit := Config.limit_lt hbuf
  intro bank
  -- sent and unanswered reads have a record in the arbiter, and the records are within the limit
  have hcount := hcredit.count bank
  have hbound := hcredit.bound bank
  have hbalance := hflow.2 bank
  omega

/-- Each read among the completions of a `ClockTick` finds, when its turn comes, that the object
which the wrapper dispatches it to holds a transaction of its address. -/
def ReadsFound (M : MemorySystem μ) (w : World (Outside (Buffers c.numUpstreams) μ)) : Prop :=
  ∀ done t rest v, (M.clockTick w.rest.memory).1 = done ++ t :: rest → t.isWrite = false →
    done.foldlM (complete M)
      { w with rest := { w.rest with memory := (M.clockTick w.rest.memory).2 } } = .ok v →
    ∃ pkt more, (v.rest.drams (M.getChannel t.addr)).outstandingReads.lookup t.addr =
      some (pkt :: more)

theorem Consistent.readsFound (h : Consistent inFlight w) (hM : AtMostOnce M inFlight)
    (hchannel : ∀ a, M.getChannel a = channelOf a) : ReadsFound M w := by
  intro done t rest v hlist _ hdone
  -- what is left of the completions when the turn of `t` comes starts with `t`
  have hclock := h.clockTick hM
  rw [hlist, ← Multiset.coe_add, add_assoc] at hclock
  obtain ⟨hv, -⟩ := completions_traffic hchannel done hclock hdone
  rw [← Multiset.cons_coe, Multiset.cons_add] at hv
  obtain ⟨-, pkt, more, hget⟩ := hv.found
  refine ⟨pkt, more, ?_⟩
  rw [hchannel]
  exact QueueMap.lookup_eq_some_of_get hget

theorem Consistent.wrapperTick_ok (h : Consistent inFlight w) (hM : AtMostOnce M inFlight)
    (hchannel : ∀ a, M.getChannel a = channelOf a) (hroom : RoomForCounters w.log) :
    ∃ w', System.wrapperTick M w = .ok w' := by
  obtain ⟨v, hdone⟩ := completions_ok hchannel _ (h.clockTick hM) hroom
  unfold System.wrapperTick
  dsimp only
  rw [hdone]
  split
  · rename_i heq
    cases heq
  · split
    · exact ⟨_, rfl⟩
    · exact ⟨_, rfl⟩

/-- **Requests stay on their channel.** In the network of `main`, with the base address of every
buffer a multiple of 512 and a memory model that completes each transaction at most once, in every
reached state: whatever a buffer requested on a port, whatever is in a read buffer of a bank and
whatever the memory object of a bank accepted is on that channel. When the clock of the memory model
is serviced, each completed read is dispatched to an object that holds its address, and for
`buf_size` at least zero no assert of a completion fails. -/
theorem requests_keep_channel (c : Config) {M : MemorySystem μ} (hM : AtMostOnce M inFlight) {m : μ}
    (hm : inFlight m = 0) {addrInit : Fin c.numUpstreams → Addr}
    (haligned : ∀ up, 512 ∣ (addrInit up).toNat)
    {retryResp : Fin c.numUpstreams → PortId → Bool} {s : Network c.numUpstreams μ}
    (h : Reach (Steps (Network.step c (withMapping M))) Free (.start c addrInit retryResp m) s) :
    (∀ port up (pkt : Packet) accepted, .request port up pkt accepted ∈ s.world.log →
      (pkt.addr >>> 6).toNat % 8 = port.val) ∧
    (∀ bank up, ∀ pkt ∈ s.world.arb.readInBufs bank up, (pkt.addr >>> 6).toNat % 8 = bank.val) ∧
    (∀ bank (pkt : Packet), .sendReq bank pkt true ∈ s.world.log →
      (pkt.addr >>> 6).toNat % 8 = bank.val) ∧
    ∀ q, s.world.rest.queue.takeHead = .ok (.wrapperTick, q) →
      ReadsFound (withMapping M) (setQueue q s.world) ∧
      (0 ≤ c.bufSize → ∃ w', wrapperTick (withMapping M) (setQueue q s.world) = .ok w') := by
  have hM' : AtMostOnce (withMapping M) inFlight := ⟨hM.ask, hM.add, hM.clock⟩
  have hchannel : ∀ a, (withMapping M).getChannel a = channelOf a := dispatch_eq
  have hs : Consistent inFlight s.world :=
    h.invariant (fun s => Consistent inFlight s.world)
      (Network.start_consistent hm haligned retryResp)
      fun _ _ _ _ hs _ hstep =>
        Network.does_consistent hM' hchannel hs (Network.step_does hstep).2
  have hval {bank : Bank} {pkt : Packet} (hpkt : OnBank bank pkt) :
      (pkt.addr >>> 6).toNat % 8 = bank.val := by
    rw [BitVec.toNat_ushiftRight, Nat.shiftRight_eq_div_pow, ← hpkt.1, channelOf_val]
  refine ⟨?_, ?_, ?_, ?_⟩
  · exact fun port up pkt accepted hmem => hval (hs.traffic.log _ hmem)
  · exact fun bank up pkt hmem => hval (hs.traffic.inBufs .read bank up pkt hmem)
  · exact fun bank pkt hmem => hval (hs.traffic.log _ hmem)
  · intro q _
    refine ⟨(hs.setQueue q).readsFound hM' hchannel, fun hbuf => ?_⟩
    exact (hs.setQueue q).wrapperTick_ok hM' hchannel (Network.roomForCounters hbuf h)

/-- A memory model that accepts everything and completes it at the next tick. -/
def MemorySystem.prompt : MemorySystem (List Completion) where
  willAcceptTransaction _ _ m := (true, m)
  addTransaction addr isWrite m := m ++ [⟨addr, isWrite⟩]
  clockTick m := (m, [])
  getChannel := channelOf

theorem prompt_atMostOnce : AtMostOnce MemorySystem.prompt fun m => (m : Multiset Completion) where
  ask _ _ _ := le_refl _
  add addr isWrite m := by
    rw [Multiset.cons_coe]
    exact Multiset.coe_le.mpr (List.perm_append_singleton _ m).subperm
  clock m := by
    show (m : Multiset Completion) + ([] : List Completion) ≤ m
    simp

/-- The four buffers of `main`. After all are initialised and two rounds of arbitration sixteen
reads are in flight, and the clock of the memory model comes next. -/
theorem requests_keep_channel_two_rounds :
    ∃ s q, Reach (Steps (Network.step (Config.small 10 3) (withMapping .prompt))) Free
        (.start (Config.small 10 3) (fun up => BitVec.ofNat 64 (16384 * up.val)) (fun _ _ => false)
          []) s ∧
      s.world.rest.queue.takeHead = .ok (.wrapperTick, q) ∧ s.world.rest.memory.length = 16 ∧
      ReadsFound (withMapping .prompt) (setQueue q s.world) ∧
      ∃ w', wrapperTick (withMapping .prompt) (setQueue q s.world) = .ok w' := by
  obtain ⟨s, hs, hp⟩ := Reach.of_run
    (Network.step (Config.small 10 3) (withMapping .prompt)) Free
    (.start (Config.small 10 3) (fun up => BitVec.ofNat 64 (16384 * up.val)) (fun _ _ => false) [])
    [.init, .init, .init, .init, .serviceOne, .serviceOne, .serviceOne, .serviceOne]
    (fun s => s.world.rest.memory.length = 16 ∧
      s.world.rest.queue.takeHead.toOption.map Prod.fst = some .wrapperTick) (by decide +kernel)
  obtain ⟨hmemory, hhead⟩ := of_decide_eq_true hp
  cases htake : s.world.rest.queue.takeHead with
  | error e => simp [htake, Except.toOption] at hhead
  | ok r =>
    obtain ⟨e, q⟩ := r
    have he : e = .wrapperTick := by simpa [htake, Except.toOption] using hhead
    subst he
    obtain ⟨-, -, -, hclock⟩ := requests_keep_channel (Config.small 10 3) prompt_atMostOnce rfl
      (by decide) hs
    obtain ⟨hfound, hrun⟩ := hclock q htake
    exact ⟨s, q, hs, htake, hmemory, hfound, hrun (by decide)⟩

end Network

end NetSim.System
