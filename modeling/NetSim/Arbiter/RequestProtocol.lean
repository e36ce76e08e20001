import NetSim.Arbiter.Arbitration

/-!
# The arbiter as a requester

After a refused `sendTimingReq` the sender has to wait for the retry of that port. The arbiter
does not: a bank whose first offer is refused goes on to the next head in the same round, and the
next round offers again whether or not `handleReqRetry` was called. `PoliteTurn` is exactly what
keeps a turn of a bank inside the protocol.
-/

namespace NetSim.Arbiter

open Common Library Relation

/-- A request on `bank` was refused and `handleReqRetry(bank)` has not been called since. -/
def awaitsReqRetry (bank : Bank) : Log → Bool
  | [] => false
  | .sendReq b _ accepted :: log =>
    if b = bank then !accepted || awaitsReqRetry bank log else awaitsReqRetry bank log
  | .reqRetry b :: log => if b = bank then false else awaitsReqRetry bank log
  | .request .. :: log | .response .. :: log | .sendResp .. :: log | .respRetry .. :: log
  | .retryReq .. :: log => awaitsReqRetry bank log

/-- Every request was sent on a port that did not await a retry. -/
def ObeysReqRetry : Log → Prop
  | [] => True
  | .sendReq b _ _ :: log => awaitsReqRetry b log = false ∧ ObeysReqRetry log
  | .reqRetry _ :: log | .request .. :: log | .response .. :: log | .sendResp .. :: log
  | .respRetry .. :: log | .retryReq .. :: log => ObeysReqRetry log

instance decidableObeysReqRetry : ∀ log, Decidable (ObeysReqRetry log)
  | [] => .isTrue trivial
  | .sendReq b _ _ :: log =>
    have := decidableObeysReqRetry log
    inferInstanceAs (Decidable (awaitsReqRetry b log = false ∧ ObeysReqRetry log))
  | .reqRetry _ :: log | .request .. :: log | .response .. :: log | .sendResp .. :: log
  | .respRetry .. :: log | .retryReq .. :: log => decidableObeysReqRetry log

variable {δ : Type} (c : Config) (P : Peers c.numUpstreams δ)

/-- What the turn of a bank needs: nothing is on offer, or the port does not await a retry and the
first head on offer is taken or is the only one. -/
def PoliteTurn (r : Round δ) (bank : Bank) : Prop :=
  match offers c r.world.arb bank with
  | [] => True
  | h :: hs => awaitsReqRetry bank r.world.log = false ∧
      (hs = [] ∨ (P.sendTimingReq bank h.pkt r.world.rest).1 = true)

instance (r : Round δ) (bank : Bank) : Decidable (PoliteTurn c P r bank) := by
  unfold PoliteTurn
  split <;> infer_instance

/-- What a step needs: in a round of arbitration every turn is polite. -/
def PoliteStep (w : World δ) : Action c.numUpstreams δ → Prop
  | .arbitrate => Along (arbitrateStep c P) (PoliteTurn c P) banks ⟨false, false, w.clearArbEvent⟩
  | _ => True

variable {c P} {s s' : Core} {w w' : World δ} {bank : Bank}

/-! ## Moves that send no request -/

theorem RespMove.obeysReqRetry (h : RespMove c s s') :
    ObeysReqRetry s'.log ↔ ObeysReqRetry s.log := by
  cases h with
  | requested h =>
    cases h with
    | accept => exact Iff.rfl
    | refuse => exact Iff.rfl
  | delivered => exact Iff.rfl
  | bounced => exact Iff.rfl
  | retried => exact Iff.rfl
  | cleared => exact Iff.rfl
  | event => exact Iff.rfl

theorem respMoves_obeysReqRetry (h : RespMoves c s s') :
    ObeysReqRetry s'.log ↔ ObeysReqRetry s.log :=
  star_invariant (I := fun t => ObeysReqRetry t.log ↔ ObeysReqRetry s.log)
    (fun _ _ hmove ht => hmove.obeysReqRetry.trans ht) h Iff.rfl

/-! ## The turn of a bank -/

/-- While a retry is awaited, any further offer breaks the protocol. -/
theorem offerAll_obeys_awaiting {hs : List Head} (hlog : awaitsReqRetry bank w.log = true) :
    ObeysReqRetry (offerAll c P bank hs w).2.log ↔ ObeysReqRetry w.log ∧ hs = [] := by
  induction hs generalizing w with
  | nil => simp [offerAll]
  | cons h hs ih =>
    have hbroken : ¬ ObeysReqRetry (offered c P bank h.pkt w).2.log := by
      simp [offered, World.note, ObeysReqRetry, hlog]
    simp only [offerAll, reduceCtorEq, and_false, iff_false]
    split
    · exact hbroken
    · rw [ih]
      · exact fun hobeys => hbroken hobeys.1
      · simp [offered, World.note, awaitsReqRetry, hlog]

theorem offerAll_obeys (h : Head) (hs : List Head) (w : World δ) :
    ObeysReqRetry (offerAll c P bank (h :: hs) w).2.log ↔ ObeysReqRetry w.log ∧
      awaitsReqRetry bank w.log = false ∧
        (hs = [] ∨ (P.sendTimingReq bank h.pkt w.rest).1 = true) := by
  have hfirst : ObeysReqRetry (offered c P bank h.pkt w).2.log ↔
      awaitsReqRetry bank w.log = false ∧ ObeysReqRetry w.log := Iff.rfl
  simp only [offerAll]
  split
  · rename_i htaken
    have htaken' : (P.sendTimingReq bank h.pkt w.rest).1 = true := htaken
    simp only [World.setArb, hfirst, htaken', or_true, and_true]
    exact and_comm
  · rename_i hrefused
    have hrefused' : (P.sendTimingReq bank h.pkt w.rest).1 = false := by
      simpa [offered] using hrefused
    rw [offerAll_obeys_awaiting, hfirst, hrefused']
    · simp only [Bool.false_eq_true, or_false]
      tauto
    · simp [offered, World.note, awaitsReqRetry, hrefused']

/-- A polite turn is exactly what keeps the protocol. -/
theorem arbitrateStep_obeys (r : Round δ) (bank : Bank) :
    ObeysReqRetry (arbitrateStep c P r bank).world.log ↔
      ObeysReqRetry r.world.log ∧ PoliteTurn c P r bank := by
  rw [arbitrateStep_eq, PoliteTurn]
  cases offers c r.world.arb bank with
  | nil => simp [offerAll]
  | cons h hs => exact offerAll_obeys h hs r.world

/-! ## Steps and runs -/

theorem arbitrate_obeys (w : World δ) :
    ObeysReqRetry (arbitrate c P w).log ↔ ObeysReqRetry w.log ∧
      Along (arbitrateStep c P) (PoliteTurn c P) banks ⟨false, false, w⟩ := by
  rw [arbitrate_core]
  exact foldl_iff_along (fun r : Round δ => ObeysReqRetry r.world.log) arbitrateStep_obeys

theorem step_obeysReqRetry {action : Action c.numUpstreams δ}
    (hstep : step c P w action = some w') :
    ObeysReqRetry w'.log ↔ ObeysReqRetry w.log ∧ PoliteStep c P w action := by
  cases action with
  | arbitrate =>
    obtain ⟨-, rfl⟩ := step_arbitrate hstep
    exact arbitrate_obeys w.clearArbEvent
  | request bank up pkt =>
    cases hstep
    have h : Requested c w.toCore (recvTimingReqUp c P pkt bank up w).2.toCore :=
      recvTimingReqUp_requested up.isLt w
    simpa [PoliteStep] using (RespMove.requested h).obeysReqRetry
  | sendResponse =>
    obtain ⟨-, rfl⟩ := step_sendResponse hstep
    simp only [PoliteStep, and_true]
    have h := respMoves_obeysReqRetry (sendResponse_moves (P := P) w.clearSendResponseEvent)
    exact h
  | response bank pkt =>
    obtain ⟨resPkt, reads, up, ups, -, -, -, rfl⟩ := recvTimingResp_cases (step_response hstep)
    simp only [accessAndRespond, scheduleSendResponseEvent_core, PoliteStep, and_true]
    exact Iff.rfl
  | reqRetry bank =>
    cases hstep
    simp only [handleReqRetry, scheduleArbEvent_core, PoliteStep, and_true]
    exact Iff.rfl
  | respRetry bank up =>
    cases hstep
    simp only [PoliteStep, and_true]
    have h := respMoves_obeysReqRetry (sendResponse_moves (P := P) (w.clearRetryResp bank up))
    exact h
  | rest d =>
    cases hstep
    simp [PoliteStep]

/-- The runs in which the arbiter always waits for the retry are exactly those in which every
turn of every round is polite. -/
theorem waits_for_reqRetry_iff {d : δ} :
    Reach (Steps (step c P)) (PoliteStep c P) (World.init d) w ↔
      Reach (Steps (step c P)) Free (World.init d) w ∧ ObeysReqRetry w.log :=
  Reach.iff_of_step_iff (fun v : World δ => ObeysReqRetry v.log) (fun _ => True) trivial trivial
    (fun _ _ _ hstep h => ((step_obeysReqRetry hstep).mp h).1)
    (fun _ _ _ hstep h _ => (step_obeysReqRetry hstep).trans (and_iff_right h))
    (fun _ _ _ _ _ _ _ => trivial)

/-- One upstream with one read: the downstream refuses it, and the next round offers it again
without a retry. -/
theorem reqRetry_not_awaited :
    ¬ ∀ w, Reach (Steps (step (Config.small 1 0) (Peers.constant false true))) Free
        (World.init ()) w → ObeysReqRetry w.log := by
  intro h
  obtain ⟨w, hw, hp⟩ := Reach.of_run (step (Config.small 1 0) (Peers.constant false true)) Free
    (World.init ()) [.request 0 0 ⟨0, 64, false⟩, .arbitrate, .arbitrate]
    (fun w => ¬ ObeysReqRetry w.log) (by decide +kernel)
  exact of_decide_eq_true hp (h w hw)

end NetSim.Arbiter
