import NetSim.Arbiter.Moves

/-!
# How many port calls a handler makes

The handlers call the peers, and the peers may call back from inside. When there is a bound on the
requests that an upstream makes from inside one call, there is a bound on all port calls of a
handler, those of the nested calls included. The calls are counted in the log.
-/

namespace NetSim.Arbiter

open Common Library

variable {δ : Type} {ρ : Type}

/-- A reaction with at most `k` requests, whatever the answers are. -/
def Reaction.AtMost {n : Nat} : Reaction n δ ρ → Nat → Prop
  | .done _ _, _ => True
  | .request _ _ _ _ next, k => ∃ j, k = j + 1 ∧ ∀ accepted d, (next accepted d).AtMost j

/-- The requests that the upstreams make from inside a call. -/
structure Peers.Answers {n : Nat} (P : Peers n δ) (onResponse onRetry : Nat) : Prop where
  sendTimingResp : ∀ bank up pkt d, (P.sendTimingResp bank up pkt d).AtMost onResponse
  recvReqRetry : ∀ bank up d, (P.recvReqRetry bank up d).AtMost onRetry

/-- The number of port calls so far. -/
def Core.calls (s : Core) : Nat := s.log.length

variable {c : Config} {P : Peers c.numUpstreams δ} {w w' : World δ}
variable {bank : Bank} {up : Nat} {pkt : Packet} {onResponse onRetry : Nat}

@[simp] theorem calls_note (w : World δ) (e : PortEvent) : (w.note e).calls = w.calls + 1 := rfl

@[simp] theorem calls_setArb (w : World δ) (a : DramArb) : (w.setArb a).calls = w.calls := rfl

@[simp] theorem calls_scheduleArbEvent (w : World δ) :
    (scheduleArbEvent c P w).calls = w.calls := by
  rw [Core.calls, scheduleArbEvent_core]
  rfl

@[simp] theorem calls_scheduleSendResponseEvent (w : World δ) :
    (scheduleSendResponseEvent c P w).calls = w.calls := by
  rw [Core.calls, scheduleSendResponseEvent_core]
  rfl

theorem recvTimingReqUp_calls (pkt : Packet) (bank : Bank) (up : Nat) (w : World δ) :
    (recvTimingReqUp c P pkt bank up w).2.calls = w.calls + 1 := by
  unfold recvTimingReqUp
  split
  · simp
  · simp

theorem Reaction.run_calls {r : Reaction c.numUpstreams δ ρ} {k : Nat} (h : r.AtMost k)
    (w : World δ) : (r.run c P w).2.calls ≤ w.calls + k := by
  induction r generalizing w k with
  | done result d => exact Nat.le_add_right _ _
  | request bank up pkt d next ih =>
    obtain ⟨j, rfl, hnext⟩ := h
    have hfirst : (recvTimingReqUp c P pkt bank up { w with rest := d }).2.calls = w.calls + 1 :=
      recvTimingReqUp_calls pkt bank up { w with rest := d }
    refine (ih _ _ (hnext _ _) _).trans ?_
    rw [hfirst]
    omega

/-! ## A pass of `sendResponse` -/

theorem sendTimingResp_calls (hP : P.Answers onResponse onRetry) (bank : Bank) (up : Nat)
    (pkt : Packet) (w : World δ) :
    (sendTimingResp c P bank up pkt w).2.calls ≤ w.calls + (onResponse + 1) := by
  have hrun := Reaction.run_calls (P := P) (hP.sendTimingResp bank up pkt w.rest) w
  simp only [sendTimingResp, calls_note]
  omega

theorem sendRetryReq_calls (hP : P.Answers onResponse onRetry) (bank : Bank) (up : Nat)
    (w : World δ) : (sendRetryReq c P bank up w).calls ≤ w.calls + (onRetry + 1) := by
  have hrun := Reaction.run_calls (P := P) (hP.recvReqRetry bank up w.rest)
    (w.note (.retryReq bank up))
  rw [calls_note] at hrun
  unfold sendRetryReq
  omega

theorem popFront_calls (bank : Bank) (w : World δ) : (popFront c P bank w).calls = w.calls := by
  rw [Core.calls, popFront_core]
  rfl

theorem retryAfter_calls (hP : P.Answers onResponse onRetry) (bank : Bank) (i target : Nat)
    (w : World δ) : (retryAfter c P bank i target w).calls ≤ w.calls + (onRetry + 1) := by
  unfold retryAfter
  split
  · exact sendRetryReq_calls hP bank target w
  · exact Nat.le_add_right _ _

theorem visit_calls (hP : P.Answers onResponse onRetry) {i : Nat} (h : Visit c P w bank i w') :
    w'.calls ≤ w.calls + (onResponse + onRetry + 2) := by
  cases h with
  | idle => exact Nat.le_add_right _ _
  | @refused pkt target rest v hopen hfront hanswer =>
    have hsend := sendTimingResp_calls hP bank target pkt w
    rw [hanswer] at hsend
    refine hsend.trans ?_
    omega
  | @taken pkt target rest v hopen hfront hanswer =>
    have hsend := sendTimingResp_calls hP bank target pkt w
    rw [hanswer] at hsend
    have hretry := retryAfter_calls hP bank i target (popFront c P bank v)
    rw [popFront_calls] at hretry
    refine hretry.trans ((Nat.add_le_add_right hsend _).trans ?_)
    omega

theorem length_visits (c : Config) : (visits c).length = numBanks * c.numUpstreams := by
  simp [visits, banks, List.length_flatMap]

theorem sendResponse_calls (hP : P.Answers onResponse onRetry) (w : World δ) :
    (sendResponse c P w).calls ≤
      w.calls + numBanks * c.numUpstreams * (onResponse + onRetry + 2) := by
  rw [← length_visits]
  refine foldl_prefix_invariant (fun seen (v : World δ) =>
    v.calls ≤ w.calls + seen.length * (onResponse + onRetry + 2)) ?_ (by simp)
  rintro seen ⟨bank, i⟩ v - hv
  have hvisit := visit_calls hP (sendResponseAt_visit v bank i)
  rw [List.length_append, List.length_singleton, Nat.add_mul, Nat.one_mul]
  omega

/-! ## A round of `arbitrate` -/

theorem arbitrateRequests_calls (kind : Kind) (bank : Bank) (ks : List Nat) (w : World δ) :
    (arbitrateRequests c P kind bank ks w).2.calls ≤ w.calls + ks.length := by
  induction ks generalizing w with
  | nil => exact Nat.le_refl _
  | cons k ks ih =>
    simp only [arbitrateRequests, List.length_cons]
    split
    · have hrest := ih w
      omega
    · rename_i pkt rest hhead
      split
      · show w.calls + 1 ≤ _
        omega
      · refine (ih _).trans ?_
        show w.calls + 1 + ks.length ≤ _
        omega

theorem arbitrateBank_calls (bank : Bank) (w : World δ) :
    (arbitrateBank c P bank w).2.calls ≤ w.calls + 2 * c.numUpstreams := by
  have hloop : ∀ (kind : Kind) (w : World δ),
      (arbitrateRequests c P kind bank (List.range c.numUpstreams) w).2.calls ≤
        w.calls + c.numUpstreams := by
    intro kind w
    have h := arbitrateRequests_calls (P := P) kind bank (List.range c.numUpstreams) w
    rwa [List.length_range] at h
  have hread : (arbitrateReadRequests c P bank w).2.calls ≤ w.calls + c.numUpstreams :=
    hloop .read w
  simp only [arbitrateBank]
  split
  · omega
  · have hwrite := hloop .write (arbitrateReadRequests c P bank w).2
    refine hwrite.trans ?_
    omega

theorem arbitrate_calls (w : World δ) :
    (arbitrate c P w).calls ≤ w.calls + numBanks * (2 * c.numUpstreams) := by
  have hrounds : (rounds c P w).world.calls ≤ w.calls + banks.length * (2 * c.numUpstreams) := by
    refine foldl_prefix_invariant (fun seen (r : Round δ) =>
      r.world.calls ≤ w.calls + seen.length * (2 * c.numUpstreams)) ?_ (by simp)
    intro seen bank r _ hr
    have hbank := arbitrateBank_calls (P := P) bank r.world
    rw [List.length_append, List.length_singleton, Nat.add_mul, Nat.one_mul]
    simp only [arbitrateStep]
    omega
  rw [Core.calls, arbitrate_core]
  exact hrounds

/-! ## Calls of the downstream -/

theorem handleReqRetry_calls (bank : Bank) (w : World δ) :
    (handleReqRetry c P bank w).calls = w.calls + 1 := by
  simp [handleReqRetry]

theorem recvTimingResp_calls (h : recvTimingResp c P pkt bank w = .ok w') :
    w'.calls = w.calls + 1 := by
  obtain ⟨resPkt, reads, up, ups, -, -, -, rfl⟩ := recvTimingResp_cases h
  simp [accessAndRespond]

end NetSim.Arbiter
