import NetSim.System.Channels

/-!
# The calls of the memory model

The objects of the simulation call the memory model as its interface asks for: `AddTransaction` is
called only for a transaction that `WillAcceptTransaction` has just accepted. So what these calls
keep of the memory model and of the transactions sent to it (`CallClosed`) holds in every run of the
system, with any upstreams (`reach_calls`).
-/

namespace NetSim.System

open Common Library Event Arbiter Dram

variable {υ μ : Type} {c : Config} {M : MemorySystem μ} {U : Upstreams c.numUpstreams υ}
  {w v w' : World (Outside υ μ)}

/-- The transaction of an accepted request. -/
def sentTransaction : PortEvent → Option Completion
  | .sendReq _ pkt true => some ⟨pkt.addr, pkt.isWrite⟩
  | _ => none

/-- The transactions that the memory objects have accepted, the latest first. -/
def transactions (log : Log) : List Completion := log.filterMap sentTransaction

/-- What the calls keep of the memory model and of the transactions sent to it. -/
structure CallClosed (M : MemorySystem μ) (I : List Completion → μ → Prop) : Prop where
  ask : ∀ addr isWrite sent m, I sent m → I sent (M.willAcceptTransaction addr isWrite m).2
  add : ∀ addr isWrite sent m, I sent m → (M.willAcceptTransaction addr isWrite m).1 = true →
    I (⟨addr, isWrite⟩ :: sent)
      (M.addTransaction addr isWrite (M.willAcceptTransaction addr isWrite m).2)
  clock : ∀ sent m, I sent m → I sent (M.clockTick m).2

/-! ## Handlers that do not call the memory model -/

/-- The same transactions and the same memory model. -/
structure SameCalls (w w' : World (Outside υ μ)) : Prop where
  sent : transactions w'.log = transactions w.log
  memory : w'.rest.memory = w.rest.memory

namespace SameCalls

theorem refl (w : World (Outside υ μ)) : SameCalls w w := ⟨rfl, rfl⟩

theorem trans (h : SameCalls w v) (h' : SameCalls v w') : SameCalls w w' :=
  ⟨h'.sent.trans h.sent, h'.memory.trans h.memory⟩

theorem note (w : World (Outside υ μ)) {e : PortEvent} (he : sentTransaction e = none) :
    SameCalls w (w.note e) := by
  refine ⟨?_, rfl⟩
  show transactions (e :: w.log) = _
  unfold transactions
  rw [List.filterMap_cons_none he]

theorem traffic (h : SameTraffic w w') : SameCalls w w' := ⟨by rw [h.log], h.memory⟩

theorem keeps {I : List Completion → μ → Prop} (h : SameCalls w w')
    (hw : I (transactions w.log) w.rest.memory) : I (transactions w'.log) w'.rest.memory := by
  rw [h.sent, h.memory]
  exact hw

end SameCalls

theorem recvTimingReqUp_sameCalls (pkt : Packet) (bank : Bank) (up : Nat)
    (w : World (Outside υ μ)) :
    SameCalls w (recvTimingReqUp c (peers c M U) pkt bank up w).2 := by
  unfold recvTimingReqUp
  split
  · rename_i a haccept
    have hsame := scheduleArbEvent_sameTraffic (c := c) (M := M) (U := U) (w.setArb a)
    have hset : SameCalls w (w.setArb a) := ⟨rfl, rfl⟩
    exact (hset.trans (.traffic hsame)).trans (.note _ rfl)
  · have hset : SameCalls w (w.setArb (w.arb.setRetryReq bank up true)) := ⟨rfl, rfl⟩
    exact hset.trans (.note _ rfl)

theorem embed_run_sameCalls {ρ : Type} (r : Reaction c.numUpstreams υ ρ)
    (w : World (Outside υ μ)) : SameCalls w ((embed r w.rest).run c (peers c M U) w).2 := by
  induction r generalizing w with
  | done result u => exact ⟨rfl, rfl⟩
  | request bank up pkt u next ih =>
    let w₁ : World (Outside υ μ) := { w with rest := { w.rest with upstream := u } }
    have h₁ : SameCalls w w₁ := ⟨rfl, rfl⟩
    exact (h₁.trans (recvTimingReqUp_sameCalls pkt bank up w₁)).trans (ih _ _ _)

/-- A pass of `sendResponse`. -/
theorem passClosed_sameCalls (w : World (Outside υ μ)) :
    PassClosed c (peers c M U) (SameCalls w) where
  sendTimingResp v bank up pkt h :=
    (h.trans (embed_run_sameCalls _ v)).trans (.note _ rfl)
  sendRetryReq v bank up h := by
    have hnote : SameCalls v (v.note (.retryReq bank up)) := .note v rfl
    exact (h.trans hnote).trans (embed_run_sameCalls _ _)
  schedule v h := h.trans (.traffic (scheduleSendResponseEvent_sameTraffic v))
  popResponse v bank h := h.trans ⟨rfl, rfl⟩
  setRetryReq v bank up flag h := h.trans ⟨rfl, rfl⟩
  setRetryResp v bank up flag h := h.trans ⟨rfl, rfl⟩

theorem modify_sameCalls (M : MemorySystem μ) (bank : Bank) (f : DRAMsim3 → DRAMsim3)
    (w : World (Outside υ μ)) : SameCalls w ((worldHost M bank).modify f w) :=
  ⟨rfl, rfl⟩

theorem tick_sameCalls (bank : Bank) (w : World (Outside υ μ)) :
    SameCalls w (tick (worldHost M bank) (handleReqRetry c (peers c M U) bank) w) := by
  unfold Dram.tick
  split
  · have hmodify := modify_sameCalls M bank (·.setRetryReq false) w
    have hnote := SameCalls.note ((worldHost M bank).modify (·.setRetryReq false) w)
      (e := .reqRetry bank) rfl
    exact (hmodify.trans hnote).trans (.traffic (scheduleArbEvent_sameTraffic _))
  · exact .refl w

theorem dramSendResponse_sameCalls {bank : Bank}
    (hrun : Dram.sendResponse (worldHost M bank) (respond c M U bank) w = .ok w') :
    SameCalls w w' := by
  obtain ⟨-, pkt, rest, success, v, hqueue, hsend, rfl⟩ := sendResponse_ok hrun
  obtain ⟨rfl, hrecv⟩ := respond_ok hsend
  obtain ⟨resPkt, reads, up, ups, -, -, -, rfl⟩ := recvTimingResp_cases hrecv
  have hdrop : SameCalls w (w.setArb (w.arb.dropRecord bank pkt.addr)) := ⟨rfl, rfl⟩
  have hnote := SameCalls.note (w.setArb (w.arb.dropRecord bank pkt.addr))
    (e := .response bank pkt) rfl
  have hrespond := accessAndRespond_sameTraffic (c := c) (M := M) (U := U) bank resPkt up
    ((w.setArb (w.arb.dropRecord bank pkt.addr)).note (.response bank pkt))
  exact ((hdrop.trans hnote).trans (.traffic hrespond)).trans (modify_sameCalls M bank _ _)

theorem complete_sameCalls {t : Completion} (hrun : complete M w t = .ok w') :
    SameCalls w w' := by
  unfold complete at hrun
  dsimp only at hrun
  split at hrun
  · obtain ⟨pkt, rest, -, -, rfl⟩ := writeComplete_ok hrun
    exact modify_sameCalls M _ _ w
  · obtain ⟨pkt, rest, -, -, rfl⟩ := readComplete_ok hrun
    obtain ⟨hcore, hmemory, -, -⟩ := dram_accessAndRespond_frame M (M.getChannel t.addr) pkt
      ((worldHost M (M.getChannel t.addr)).modify (·.dropRead t.addr) w)
    exact ⟨congrArg (fun s : Core => transactions s.log) hcore, hmemory⟩

theorem completions_sameCalls {ts : List Completion} {w w' : World (Outside υ μ)}
    (hrun : ts.foldlM (complete M) w = .ok w') : SameCalls w w' := by
  induction ts generalizing w with
  | nil =>
    cases hrun
    exact .refl _
  | cons t ts ih =>
    rw [List.foldlM_cons] at hrun
    cases hfirst : complete M w t with
    | error e =>
      rw [hfirst] at hrun
      cases hrun
    | ok v =>
      rw [hfirst] at hrun
      exact (complete_sameCalls hfirst).trans (ih hrun)

/-! ## Arbitration and the clock -/

variable {I : List Completion → μ → Prop} {bank : Bank}

/-- A request to a memory object. -/
theorem offered_calls (hM : CallClosed M I) (pkt : Packet)
    (h : I (transactions w.log) w.rest.memory) :
    I (transactions (offered c (peers c M U) bank pkt w).2.log)
      (offered c (peers c M U) bank pkt w).2.rest.memory := by
  cases hanswer : (M.willAcceptTransaction pkt.addr pkt.isWrite w.rest.memory).1 with
  | true =>
    have hadd := hM.add pkt.addr pkt.isWrite _ _ h hanswer
    simp only [offered, peers, recvTimingReq, host, hanswer, if_true]
    exact hadd
  | false =>
    have hask := hM.ask pkt.addr pkt.isWrite _ _ h
    let o : Outside υ μ := { w.rest with
      memory := (M.willAcceptTransaction pkt.addr pkt.isWrite w.rest.memory).2 }
    obtain ⟨-, hmemory, -⟩ := o.schedule_frame (.dram bank .tick)
    simp only [offered, peers, recvTimingReq, host, hanswer, Bool.false_eq_true, if_false,
      Host.modify]
    show I (transactions w.log) (o.schedule (.dram bank .tick)).memory
    rw [hmemory]
    exact hask

theorem offerAll_calls (hM : CallClosed M I) (hs : List Head)
    (h : I (transactions w.log) w.rest.memory) :
    I (transactions (offerAll c (peers c M U) bank hs w).2.log)
      (offerAll c (peers c M U) bank hs w).2.rest.memory := by
  induction hs generalizing w with
  | nil => exact h
  | cons head hs ih =>
    have hoffered := @offered_calls _ _ c M U w _ bank hM head.pkt h
    unfold offerAll
    dsimp only
    split
    · exact hoffered
    · exact ih hoffered

theorem arbitrate_calls (hM : CallClosed M I) (h : I (transactions w.log) w.rest.memory) :
    I (transactions (arbitrate c (peers c M U) w).log)
      (arbitrate c (peers c M U) w).rest.memory := by
  have hloop : I (transactions (rounds c (peers c M U) w).world.log)
      (rounds c (peers c M U) w).world.rest.memory := by
    refine foldl_invariant
      (fun r : Round (Outside υ μ) => I (transactions r.world.log) r.world.rest.memory) ?_ h
    intro r bank _ hr
    rw [arbitrateStep_eq]
    exact offerAll_calls hM _ hr
  unfold Arbiter.arbitrate
  dsimp only
  split
  · exact (SameCalls.traffic (scheduleArbEvent_sameTraffic _)).keeps hloop
  · exact hloop

theorem wrapperTick_calls (hM : CallClosed M I) (h : I (transactions w.log) w.rest.memory)
    (hrun : wrapperTick M w = .ok w') : I (transactions w'.log) w'.rest.memory := by
  obtain ⟨v, hdone, rfl⟩ := wrapperTick_ok hrun
  have hv := (completions_sameCalls hdone).keeps (hM.clock _ _ h)
  split
  · exact hv
  · obtain ⟨hdrams, hmemory, hupstream⟩ := v.rest.schedule_frame .wrapperTick
    have hsame : SameCalls v { v with rest := v.rest.schedule .wrapperTick } := ⟨rfl, hmemory⟩
    exact hsame.keeps hv

/-! ## Runs -/

theorem process_calls (hM : CallClosed M I) (h : I (transactions w.log) w.rest.memory)
    {e : EventId} (hrun : process c M U w e = .ok w') :
    I (transactions w'.log) w'.rest.memory := by
  cases e with
  | arb e =>
    cases e with
    | arb =>
      cases hrun
      exact arbitrate_calls hM h
    | sendResponse =>
      cases hrun
      exact ((passClosed_sameCalls _).pass (.refl _)).keeps h
  | dram bank e =>
    cases e with
    | tick =>
      cases hrun
      exact (tick_sameCalls bank w).keeps h
    | sendResponse => exact (dramSendResponse_sameCalls hrun).keeps h
  | wrapperTick => exact wrapperTick_calls hM h hrun

theorem step_calls (hM : CallClosed M I) {action : Action c.numUpstreams υ}
    (h : I (transactions w.log) w.rest.memory) (hstep : step c M U w action = some w') :
    I (transactions w'.log) w'.rest.memory := by
  have hrunning := step_running hstep
  cases action with
  | serviceOne =>
    obtain ⟨e, q, -, hprocess⟩ := step_serviceOne hstep
    have hset : SameCalls w (setQueue q w) := ⟨rfl, rfl⟩
    exact process_calls hM (hset.keeps h) hprocess
  | request bank up pkt =>
    have hw' : w' = (recvTimingReqUp c (peers c M U) pkt bank up w).2 := by
      simpa [step, hrunning] using hstep.symm
    rw [hw']
    exact (recvTimingReqUp_sameCalls pkt bank up w).keeps h
  | respRetry bank up =>
    have hw' : w' = handleRespRetry c (peers c M U) bank up w := by
      simpa [step, hrunning] using hstep.symm
    have hclear : SameCalls w (w.clearRetryResp bank up) := by
      have hset : SameCalls w (w.setArb (w.arb.setRetryResp bank up false)) := ⟨rfl, rfl⟩
      exact hset.trans (.note _ rfl)
    rw [hw']
    exact ((passClosed_sameCalls w).pass hclear).keeps h
  | upstream u =>
    have hw' : w' = { w with rest := { w.rest with upstream := u } } := by
      simpa [step, hrunning] using hstep.symm
    rw [hw']
    exact h
  | advance t =>
    obtain rfl := step_advance hstep
    exact h

/-- What the calls keep holds in every run. -/
theorem reach_calls (hM : CallClosed M I) {u : υ} {m : μ} (hm : I [] m)
    (h : SystemRun c M U (start u m) w) : I (transactions w.log) w.rest.memory := by
  refine h.invariant (fun w => I (transactions w.log) w.rest.memory) ?_
    fun _ _ _ _ hw _ hstep => step_calls hM hw hstep
  obtain ⟨-, hmemory, -⟩ := Outside.scheduleAt_frame
    { queue := .init fun _ => 0, drams := fun _ => .init, memory := m, upstream := u,
      failed := false } .wrapperTick 0
  have hmemory : (start u m).rest.memory = m := hmemory
  rw [hmemory]
  exact hm

end NetSim.System
