import Mathlib.Algebra.Order.BigOperators.Group.Finset
import NetSim.Arbiter.Arbitration
import NetSim.Arbiter.Ledger

/-!
# Answers and the order of issue

A response is matched with the oldest record of its address, and the records are made when a read
is accepted. Reads leave in round-robin order over the upstreams, so two reads of one address from
two upstreams may leave in the other order, and the answer to the one that was sent is then given
to the one that still waits. When the reads of every address leave a bank in the order in which
they were accepted (`InOrderTurn`) and no read is accepted twice on a bank (`AcceptedOnce`), only
issued reads are answered, and none of them waits in a read buffer any more.
-/

namespace NetSim.Arbiter

open Common Library Relation

variable {δ : Type} (c : Config) (P : Peers c.numUpstreams δ)

/-- The downstream answers on a bank only reads that were sent there, each at most once. -/
def LegalAnswer (w : World δ) : Action c.numUpstreams δ → Prop
  | .response bank pkt => answeredAt bank pkt.addr w.log < (sentAt bank pkt.addr w.log).length
  | _ => True

instance (w : World δ) : ∀ action, Decidable (LegalAnswer c w action)
  | .response _ _ => inferInstanceAs (Decidable (_ < _))
  | .request .. | .arbitrate | .sendResponse | .reqRetry _ | .respRetry .. | .rest _ =>
    .isTrue trivial

/-- A read that is taken in the turn of a bank is the oldest accepted read of its address that was
not sent before. -/
def InOrderTurn (r : Round δ) (bank : Bank) : Prop :=
  ∀ h ∈ takenHead c P bank (offers c r.world.arb bank) r.world.rest, h.pkt.isRead = true →
    sentAt bank h.pkt.addr r.world.log ++ [h.pkt] <+: acceptedAt bank h.pkt.addr r.world.log

instance (r : Round δ) (bank : Bank) : Decidable (InOrderTurn c P r bank) :=
  inferInstanceAs (Decidable (∀ h ∈ _, _ → _))

def PortEvent.acceptedOn (bank : Bank) : PortEvent → List Packet
  | .request b _ pkt true => if b = bank ∧ pkt.isRead then [pkt] else []
  | _ => []

/-- The reads that were accepted on `bank`. -/
def acceptedOn (bank : Bank) : Log → List Packet
  | [] => []
  | e :: log => acceptedOn bank log ++ e.acceptedOn bank

/-- No read was accepted twice on a bank. -/
def AcceptedOnce (log : Log) : Prop := ∀ bank, (acceptedOn bank log).Nodup

instance (log : Log) : Decidable (AcceptedOnce log) :=
  inferInstanceAs (Decidable (∀ bank : Bank, (acceptedOn bank log).Nodup))

/-- What a step needs: answers are legal, no read is accepted on a bank that has accepted it before,
and reads of one address leave in order. -/
def InOrderStep (w : World δ) (action : Action c.numUpstreams δ) : Prop :=
  LegalAnswer c w action ∧ (∀ w' ∈ step c P w action, AcceptedOnce w'.log) ∧
    match action with
    | .arbitrate =>
      Along (arbitrateStep c P) (InOrderTurn c P) banks ⟨false, false, w.clearArbEvent⟩
    | _ => True

instance (w : World δ) : ∀ action, Decidable (InOrderStep c P w action)
  | .arbitrate => inferInstanceAs (Decidable (_ ∧ (∀ _ ∈ _, _) ∧ Along _ _ _ _))
  | .response _ _ | .request .. | .sendResponse | .reqRetry _ | .respRetry .. | .rest _ =>
    inferInstanceAs (Decidable (_ ∧ (∀ _ ∈ _, _) ∧ True))

/-- The reads of every address were sent in the order of acceptance, and no more of them were
answered than sent. -/
def InOrder (log : Log) : Prop :=
  ∀ bank addr, sentAt bank addr log <+: acceptedAt bank addr log ∧
    answeredAt bank addr log ≤ (sentAt bank addr log).length

variable {c P} {s s' : Core} {w w' : World δ} {bank : Bank}

/-! ## Moves that send and answer nothing -/

theorem InOrder.request {log : Log} (h : InOrder log) (bank : Bank) (up : Nat) (pkt : Packet)
    (accepted : Bool) : InOrder (.request bank up pkt accepted :: log) := by
  intro b x
  obtain ⟨hpre, hle⟩ := h b x
  simp only [sentAt, acceptedAt, answeredAt, PortEvent.sentAt, List.append_nil]
  exact ⟨hpre.trans (List.prefix_append _ _), hle⟩

/-- An entry of the log that accepts, sends and answers nothing. -/
theorem InOrder.quiet {log : Log} {e : PortEvent} (h : InOrder log)
    (haccepted : ∀ b x, e.acceptedAt b x = []) (hsent : ∀ b x, e.sentAt b x = [])
    (hanswered : ∀ b x, answeredAt b x (e :: log) = answeredAt b x log) : InOrder (e :: log) := by
  intro b x
  rw [hanswered]
  simp only [sentAt, acceptedAt, haccepted, hsent, List.append_nil]
  exact h b x

/-- A legal answer on `bank` leaves no address with more answered reads than sent ones. -/
theorem answeredAt_response_le {log : Log} {pkt : Packet}
    (hle : ∀ b x, answeredAt b x log ≤ (sentAt b x log).length)
    (hlegal : answeredAt bank pkt.addr log < (sentAt bank pkt.addr log).length) (b : Bank)
    (x : Addr) : answeredAt b x (.response bank pkt :: log) ≤
      (sentAt b x (.response bank pkt :: log)).length := by
  have hbx := hle b x
  simp only [sentAt, answeredAt, PortEvent.sentAt, List.append_nil]
  split
  · rename_i hif
    obtain ⟨rfl, rfl⟩ := hif
    omega
  · exact hbx

theorem RespMove.inOrder (h : RespMove c s s') (hs : InOrder s.log) : InOrder s'.log := by
  cases h with
  | requested h =>
    cases h with
    | accept => exact hs.request _ _ _ _
    | refuse => exact hs.request _ _ _ _
  | delivered => exact hs.quiet (fun _ _ => rfl) (fun _ _ => rfl) (fun _ _ => rfl)
  | bounced => exact hs.quiet (fun _ _ => rfl) (fun _ _ => rfl) (fun _ _ => rfl)
  | retried => exact hs.quiet (fun _ _ => rfl) (fun _ _ => rfl) (fun _ _ => rfl)
  | cleared => exact hs
  | event => exact hs

/-! ## The turn of a bank -/

/-- What the turn of a bank adds to the reads of an address: the read that is taken. -/
theorem offerAll_log (bank : Bank) (hs : List Head) (w : World δ) (b : Bank) (x : Addr) :
    acceptedAt b x (offerAll c P bank hs w).2.log = acceptedAt b x w.log ∧
    answeredAt b x (offerAll c P bank hs w).2.log = answeredAt b x w.log ∧
    sentAt b x (offerAll c P bank hs w).2.log = sentAt b x w.log ++
      match takenHead c P bank hs w.rest with
      | some h => PortEvent.sentAt b x (.sendReq bank h.pkt true)
      | none => [] := by
  induction hs generalizing w with
  | nil => simp [offerAll, takenHead]
  | cons head hs ih =>
    cases hanswer : (P.sendTimingReq bank head.pkt w.rest).1 with
    | true =>
      simp [offerAll, offered, takenHead, hanswer, World.note, World.setArb, acceptedAt,
        answeredAt, sentAt, PortEvent.acceptedAt]
    | false =>
      have hrest := ih (offered c P bank head.pkt w).2
      simpa [offerAll, offered, takenHead, hanswer, World.note, acceptedAt, answeredAt, sentAt,
        PortEvent.acceptedAt, PortEvent.sentAt] using hrest

theorem arbitrateStep_inOrder {r : Round δ} (h : InOrder r.world.log)
    (hturn : InOrderTurn c P r bank) : InOrder (arbitrateStep c P r bank).world.log := by
  intro b x
  rw [arbitrateStep_eq]
  obtain ⟨haccepted, hanswered, hsent⟩ :=
    offerAll_log (P := P) bank (offers c r.world.arb bank) r.world b x
  rw [haccepted, hanswered, hsent]
  obtain ⟨hpre, hle⟩ := h b x
  refine ⟨?_, by rw [List.length_append]; omega⟩
  cases htaken : takenHead c P bank (offers c r.world.arb bank) r.world.rest with
  | none => simpa using hpre
  | some head =>
    simp only [PortEvent.sentAt]
    split
    · rename_i hif
      obtain ⟨rfl, rfl, hread⟩ := hif
      exact hturn head htaken hread
    · simpa using hpre

/-! ## Steps and runs -/

theorem arbitrate_inOrder (h : InOrder w.log)
    (hturns : Along (arbitrateStep c P) (InOrderTurn c P) banks ⟨false, false, w⟩) :
    InOrder (arbitrate c P w).log := by
  rw [arbitrate_core]
  exact hturns.foldl (fun r : Round δ => InOrder r.world.log)
    (fun r bank _ hr hturn => arbitrateStep_inOrder hr hturn) h

theorem step_inOrder {action : Action c.numUpstreams δ} (h : InOrder w.log)
    (hok : InOrderStep c P w action) (hstep : step c P w action = some w') : InOrder w'.log := by
  cases action with
  | request bank up pkt =>
    cases hstep
    have hreq : Requested c w.toCore (recvTimingReqUp c P pkt bank up w).2.toCore :=
      recvTimingReqUp_requested up.isLt w
    exact (RespMove.requested hreq).inOrder h
  | arbitrate =>
    obtain ⟨-, rfl⟩ := step_arbitrate hstep
    exact arbitrate_inOrder h hok.2.2
  | sendResponse =>
    obtain ⟨-, rfl⟩ := step_sendResponse hstep
    exact star_invariant (I := fun t => InOrder t.log) (fun _ _ => RespMove.inOrder)
      (sendResponse_moves w.clearSendResponseEvent) h
  | response bank pkt =>
    obtain ⟨resPkt, reads, up, ups, -, -, -, rfl⟩ := recvTimingResp_cases (step_response hstep)
    rw [accessAndRespond, scheduleSendResponseEvent_core]
    intro b x
    refine ⟨?_, answeredAt_response_le (fun b x => (h b x).2) hok.1 b x⟩
    simp only [World.note, World.setArb, sentAt, acceptedAt, PortEvent.sentAt,
      PortEvent.acceptedAt, List.append_nil]
    exact (h b x).1
  | reqRetry bank =>
    cases hstep
    rw [handleReqRetry, scheduleArbEvent_core]
    exact h.quiet (fun _ _ => rfl) (fun _ _ => rfl) (fun _ _ => rfl)
  | respRetry bank up =>
    cases hstep
    have hclear : InOrder (w.clearRetryResp bank up).log :=
      h.quiet (fun _ _ => rfl) (fun _ _ => rfl) (fun _ _ => rfl)
    exact star_invariant (I := fun t => InOrder t.log) (fun _ _ => RespMove.inOrder)
      (sendResponse_moves (w.clearRetryResp bank up)) hclear
  | rest d =>
    cases hstep
    exact h

/-! ## Reads that are accepted once -/

theorem PortEvent.acceptedAt_eq_filter (bank : Bank) (addr : Addr) (e : PortEvent) :
    e.acceptedAt bank addr = (e.acceptedOn bank).filter (·.addr = addr) := by
  cases e with
  | request b up pkt accepted =>
    cases accepted with
    | true =>
      by_cases hb : b = bank ∧ pkt.isRead = true
      · by_cases haddr : pkt.addr = addr
        · simp [PortEvent.acceptedAt, PortEvent.acceptedOn, hb, haddr]
        · simp [PortEvent.acceptedAt, PortEvent.acceptedOn, hb, haddr]
      · have hnone : ¬ (b = bank ∧ pkt.addr = addr ∧ pkt.isRead = true) :=
          fun h => hb ⟨h.1, h.2.2⟩
        rw [PortEvent.acceptedAt, PortEvent.acceptedOn, if_neg hb, if_neg hnone, List.filter_nil]
    | false => rfl
  | _ => rfl

theorem acceptedAt_eq_filter (bank : Bank) (addr : Addr) (log : Log) :
    acceptedAt bank addr log = (acceptedOn bank log).filter (·.addr = addr) := by
  induction log with
  | nil => rfl
  | cons e log ih =>
    rw [acceptedAt, acceptedOn, List.filter_append, ih, e.acceptedAt_eq_filter]

theorem acceptedOnce_nil : AcceptedOnce [] := fun _ => List.nodup_nil

theorem AcceptedOnce.count_le {log : Log} (h : AcceptedOnce log) (bank : Bank) (pkt : Packet) :
    (acceptedAt bank pkt.addr log).count pkt ≤ 1 := by
  rw [acceptedAt_eq_filter]
  exact List.nodup_iff_count_le_one.mp ((h bank).filter _) pkt

/-- What was accepted once and sent waits no more. -/
theorem Ledger.not_mem_of_sent {up : Nat} {pkt : Packet} (h : Ledger c s)
    (honce : AcceptedOnce s.log) (hread : pkt.isRead = true)
    (hsent : pkt ∈ sentAt bank pkt.addr s.log) (hup : up < c.numUpstreams) :
    pkt ∉ s.arb.readInBufs bank up := by
  intro hwaits
  have hbalance := h.waits bank pkt hread
  have haccepted := honce.count_le bank pkt
  have hcount : 0 < (sentAt bank pkt.addr s.log).count pkt := List.count_pos_iff.mpr hsent
  have hbuffer : (s.arb.readInBufs bank up).count pkt ≤ waiting c s.arb bank pkt :=
    Finset.single_le_sum (f := fun u => (s.arb.readInBufs bank u).count pkt)
      (fun _ _ => Nat.zero_le _) (Finset.mem_range.mpr hup)
  have hpos := List.count_pos_iff.mpr hwaits
  omega

/-! ## Answered reads -/

/-- When reads of one address leave in order and none is accepted twice, a read is answered only
after it was sent, and it is in no read buffer then. -/
theorem answered_read_was_sent {d : δ}
    (h : Reach (Steps (step c P)) (InOrderStep c P) (World.init d) w) (bank : Bank) (pkt : Packet)
    (hanswered : pkt ∈ (w.arb.responseQueue bank).map Prod.fst ∨ pkt ∈ deliveredOn bank w.log) :
    PortEvent.sendReq bank pkt true ∈ w.log ∧
      ∀ up, up < c.numUpstreams → pkt ∉ w.arb.readInBufs bank up := by
  have hledger : Ledger c w.toCore := reach_invariant ledger_init (fun _ _ m hs => hs.move m) h
  have hinOrder : InOrder w.log :=
    h.invariant (fun v : World δ => InOrder v.log) (fun _ _ => ⟨List.prefix_refl _, le_rfl⟩)
      fun _ _ _ _ hv hok hstep => step_inOrder hv hok hstep
  have honce : AcceptedOnce w.log :=
    h.invariant (fun v : World δ => AcceptedOnce v.log) acceptedOnce_nil
      fun _ _ v' _ _ hok hstep => hok.2.1 v' hstep
  obtain ⟨⟨rest, hrest⟩, hle⟩ := hinOrder bank pkt.addr
  have htake : (acceptedAt bank pkt.addr w.log).take (answeredAt bank pkt.addr w.log) =
      (sentAt bank pkt.addr w.log).take (answeredAt bank pkt.addr w.log) := by
    rw [← hrest, List.take_append_of_le_length hle]
  have hmem : pkt ∈ (sentAt bank pkt.addr w.log).take (answeredAt bank pkt.addr w.log) := by
    rw [← htake, ← List.count_pos_iff, ← hledger.responded bank pkt]
    rcases hanswered with hq | hd
    · have := List.count_pos_iff.mpr hq
      omega
    · have := List.count_pos_iff.mpr hd
      omega
  have hsent : pkt ∈ sentAt bank pkt.addr w.log := List.mem_of_mem_take hmem
  have haccepted : pkt ∈ acceptedAt bank pkt.addr w.log := by
    rw [← hrest]
    exact List.mem_append_left _ hsent
  exact ⟨sendReq_mem_of_mem_sentAt hsent,
    fun up => hledger.not_mem_of_sent honce (mem_acceptedAt haccepted).2 hsent⟩

/-- Two reads are accepted, and the one that is sent is answered while the other still waits. -/
theorem answered_read_was_sent_once :
    ∃ w, Reach (Steps (step (Config.small 2 0) (Peers.constant true true)))
        (InOrderStep _ (Peers.constant true true)) (World.init ()) w ∧
      ⟨0, 64, false⟩ ∈ (w.arb.responseQueue 0).map Prod.fst ∧
      ⟨1, 128, false⟩ ∈ w.arb.readInBufs 0 0 ∧
      PortEvent.sendReq 0 ⟨0, 64, false⟩ true ∈ w.log ∧
      ⟨0, 64, false⟩ ∉ w.arb.readInBufs 0 0 := by
  obtain ⟨w, hw, hp⟩ := Reach.of_run (step (Config.small 2 0) (Peers.constant true true))
    (InOrderStep _ (Peers.constant true true)) (World.init ())
    [.request 0 0 ⟨0, 64, false⟩, .request 0 0 ⟨1, 128, false⟩, .arbitrate,
      .response 0 ⟨0, 64, false⟩]
    (fun w => ⟨0, 64, false⟩ ∈ (w.arb.responseQueue 0).map Prod.fst ∧
      ⟨1, 128, false⟩ ∈ w.arb.readInBufs 0 0) (by decide +kernel)
  obtain ⟨hqueue, hwaits⟩ := of_decide_eq_true hp
  obtain ⟨hsent, hbuffer⟩ := answered_read_was_sent hw 0 ⟨0, 64, false⟩ (.inl hqueue)
  exact ⟨w, hw, hqueue, hwaits, hsent, hbuffer 0 (by decide)⟩

/-- Two reads of one address: upstream 1 is accepted first, upstream 0 is sent first. The legal
answer to the read of upstream 0 is given to that of upstream 1, which was never sent. -/
theorem unsent_read_answered :
    ¬ ∀ w, Reach (Steps (step (Config.small 2 1) (Peers.constant true true))) (LegalAnswer _)
        (World.init ()) w →
      ∀ bank pkt, pkt ∈ (w.arb.responseQueue bank).map Prod.fst →
        PortEvent.sendReq bank pkt true ∈ w.log := by
  intro h
  obtain ⟨w, hw, hp⟩ := Reach.of_run (step (Config.small 2 1) (Peers.constant true true))
    (LegalAnswer _) (World.init ())
    [.request 0 1 ⟨1, 64, false⟩, .request 0 0 ⟨0, 64, false⟩, .arbitrate,
      .response 0 ⟨0, 64, false⟩]
    (fun w => ⟨1, 64, false⟩ ∈ (w.arb.responseQueue 0).map Prod.fst ∧
      PortEvent.sendReq 0 ⟨1, 64, false⟩ true ∉ w.log) (by decide +kernel)
  obtain ⟨hqueue, hunsent⟩ := of_decide_eq_true hp
  exact hunsent (h w hw 0 _ hqueue)

end NetSim.Arbiter
