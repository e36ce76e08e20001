import NetSim.Arbiter.Moves

/-!
# Retries that are owed to upstreams

An upstream whose last request was refused is owed a retry, and the flag `retryReq` is there to
remember it. After a delivered response the arbiter tests and clears the flag of the loop index
but sends the retry to the upstream of the response, and it clears the flag after the callback, in
which the upstream may have been refused again. `RetryKept` is exactly what an iteration needs to
forget no refusal. In the runs that meet it the flag says whether a request was refused since the
last retry (`RetryExact`), so it is cleared only by a retry.
-/

namespace NetSim.Arbiter

open Common Library Relation

/-- The last request on `(bank, up)` was refused and `sendRetryReq` has not been called on
`responsePorts[bank][up]` since. -/
def owedRetry (bank : Bank) (up : Nat) : Log → Bool
  | [] => false
  | .request b u _ accepted :: log =>
    if b = bank ∧ u = up then !accepted else owedRetry bank up log
  | .retryReq b u :: log => if b = bank ∧ u = up then false else owedRetry bank up log
  | .sendReq .. :: log | .reqRetry .. :: log | .response .. :: log | .sendResp .. :: log
  | .respRetry .. :: log => owedRetry bank up log

/-- A request on `(bank, up)` was refused and `sendRetryReq` has not been called on
`responsePorts[bank][up]` since. -/
def waitsForRetry (bank : Bank) (up : Nat) : Log → Bool
  | [] => false
  | .request b u _ accepted :: log =>
    if b = bank ∧ u = up then !accepted || waitsForRetry bank up log
    else waitsForRetry bank up log
  | .retryReq b u :: log => if b = bank ∧ u = up then false else waitsForRetry bank up log
  | .sendReq .. :: log | .reqRetry .. :: log | .response .. :: log | .sendResp .. :: log
  | .respRetry .. :: log => waitsForRetry bank up log

/-- Every owed retry is remembered. -/
def RetryFlagged (s : Core) : Prop :=
  ∀ bank up, owedRetry bank up s.log = true → s.arb.retryReq bank up = true

/-- A refusal sets the flag, and the flag stays set until the next retry to its port. -/
def RefusalFlagged (s : Core) : Prop :=
  ∀ bank up, waitsForRetry bank up s.log = true → s.arb.retryReq bank up = true

/-- The flag says whether a request was refused since the last retry. -/
def RetryExact (s : Core) : Prop :=
  ∀ bank up, s.arb.retryReq bank up = waitsForRetry bank up s.log

/-- A flag that `s` has and `s'` has not was cleared by a retry to its own port. -/
def ClearedByRetry (s s' : Core) : Prop :=
  ∃ events, s'.log = events ++ s.log ∧ ∀ bank up, s.arb.retryReq bank up = true →
    s'.arb.retryReq bank up = false → .retryReq bank up ∈ events

variable {δ : Type} (c : Config) (P : Peers c.numUpstreams δ)

/-- What the retry to `target` needs when the flag of `i` is set: it is the retry of `i`, and no
request on `(bank, i)` is refused inside it. -/
def RetrySettled (bank : Bank) (i target : Nat) (w : World δ) : Prop :=
  w.arb.retryReq bank i = true →
    target = i ∧ waitsForRetry bank i (sendRetryReq c P bank target w).log = false

/-- What an iteration of `sendResponse` needs when its response is taken. -/
def RetryKept (w : World δ) (bi : Bank × Nat) : Prop :=
  w.arb.retryResp bi.1 bi.2 = false → ∀ pkt target rest w',
    w.arb.responseQueue bi.1 = (pkt, target) :: rest →
    sendTimingResp c P bi.1 target pkt w = (true, w') →
    RetrySettled c P bi.1 bi.2 target (popFront c P bi.1 w')

instance (bank : Bank) (i target : Nat) (w : World δ) :
    Decidable (RetrySettled c P bank i target w) :=
  inferInstanceAs (Decidable (_ → _ ∧ _))

instance (w : World δ) (bi : Bank × Nat) : Decidable (RetryKept c P w bi) :=
  decidable_of_iff (w.arb.retryResp bi.1 bi.2 = false →
    ∀ entry ∈ (w.arb.responseQueue bi.1).head?,
      (sendTimingResp c P bi.1 entry.2 entry.1 w).1 = true →
        RetrySettled c P bi.1 bi.2 entry.2
          (popFront c P bi.1 (sendTimingResp c P bi.1 entry.2 entry.1 w).2))
    (forall_taken_iff (Q := fun target w' =>
      RetrySettled c P bi.1 bi.2 target (popFront c P bi.1 w'))).symm

/-- What a step needs: every iteration of its pass of `sendResponse` forgets no refusal. -/
def RetryKeptStep (w : World δ) : Action c.numUpstreams δ → Prop
  | .sendResponse => Along (sendResponseAt c P) (RetryKept c P) (visits c) w.clearSendResponseEvent
  | .respRetry bank up =>
    Along (sendResponseAt c P) (RetryKept c P) (visits c) (w.clearRetryResp bank up)
  | _ => True

instance (w : World δ) : ∀ action, Decidable (RetryKeptStep c P w action)
  | .sendResponse | .respRetry _ _ => inferInstanceAs (Decidable (Along _ _ _ _))
  | .request .. | .arbitrate | .response .. | .reqRetry _ | .rest _ => .isTrue trivial

variable {c P} {s s' : Core} {w w' : World δ} {bank : Bank} {i target : Nat}

/-! ## The flags and the log -/

/-- Who is owed a retry waits for it. -/
theorem waitsForRetry_of_owedRetry {bank : Bank} {up : Nat} {log : Log}
    (h : owedRetry bank up log = true) : waitsForRetry bank up log = true := by
  induction log with
  | nil => cases h
  | cons e log ih =>
    cases e with
    | request b u pkt accepted =>
      simp only [owedRetry, waitsForRetry] at h ⊢
      split at h
      · rename_i hbu
        rw [if_pos hbu, h, Bool.true_or]
      · rename_i hbu
        rw [if_neg hbu]
        exact ih h
    | retryReq b u =>
      simp only [owedRetry, waitsForRetry] at h ⊢
      split at h
      · cases h
      · rename_i hbu
        rw [if_neg hbu]
        exact ih h
    | _ => exact ih h

theorem RefusalFlagged.retryFlagged (h : RefusalFlagged s) : RetryFlagged s :=
  fun bank up howed => h bank up (waitsForRetry_of_owedRetry howed)

theorem RetryExact.refusalFlagged (h : RetryExact s) : RefusalFlagged s :=
  fun bank up hwaits => (h bank up).trans hwaits

theorem waitsForRetry_retryReq (bank : Bank) (target up : Nat) (log : Log) :
    waitsForRetry bank up (.retryReq bank target :: log) = true ↔
      up ≠ target ∧ waitsForRetry bank up log = true := by
  by_cases h : target = up
  · simp [waitsForRetry, h]
  · simp [waitsForRetry, h, Ne.symm h]

/-- Requests only add refusals. -/
theorem waitsForRetry_append {events : Log} (bank : Bank) (up : Nat) (log : Log)
    (h : ∀ e ∈ events, ∃ bank up pkt accepted, e = PortEvent.request bank up pkt accepted) :
    waitsForRetry bank up (events ++ log) =
      (waitsForRetry bank up events || waitsForRetry bank up log) := by
  induction events with
  | nil => rfl
  | cons e events ih =>
    obtain ⟨b, u, pkt, accepted, rfl⟩ := h e List.mem_cons_self
    have hrest := ih fun e he => h e (List.mem_cons_of_mem _ he)
    simp only [List.cons_append, waitsForRetry, hrest]
    split
    · rw [Bool.or_assoc]
    · rfl

/-- Only a retry to `(bank, up)` ends its waiting. -/
theorem retryReq_mem_of_waits {events : Log} {bank : Bank} {up : Nat} {log : Log}
    (hwaits : waitsForRetry bank up log = true)
    (hafter : waitsForRetry bank up (events ++ log) = false) : .retryReq bank up ∈ events := by
  induction events with
  | nil => simp [hwaits] at hafter
  | cons e events ih =>
    cases e with
    | request b u pkt accepted =>
      simp only [List.cons_append, waitsForRetry] at hafter
      split at hafter
      · exact List.mem_cons_of_mem _ (ih (Bool.or_eq_false_iff.mp hafter).2)
      · exact List.mem_cons_of_mem _ (ih hafter)
    | retryReq b u =>
      by_cases hbu : b = bank ∧ u = up
      · obtain ⟨rfl, rfl⟩ := hbu
        exact List.mem_cons_self
      · simp only [List.cons_append, waitsForRetry, if_neg hbu] at hafter
        exact List.mem_cons_of_mem _ (ih hafter)
    | _ => exact List.mem_cons_of_mem _ (ih hafter)

/-- Exact flags are cleared by retries only. -/
theorem RetryExact.clearedByRetry (hs : RetryExact s) (hs' : RetryExact s')
    (hlog : s.log <:+ s'.log) : ClearedByRetry s s' := by
  obtain ⟨events, hevents⟩ := hlog
  refine ⟨events, hevents.symm, fun bank up hflag hflag' => ?_⟩
  rw [hs bank up] at hflag
  rw [hs' bank up, ← hevents] at hflag'
  exact retryReq_mem_of_waits hflag hflag'

/-! ## Requests -/

theorem Requested.retryReq (h : Requested c s s') :
    ∃ bank up pkt accepted, s'.log = .request bank up pkt accepted :: s.log ∧
      ∀ b u, s'.arb.retryReq b u =
        (waitsForRetry b u [.request bank up pkt accepted] || s.arb.retryReq b u) := by
  cases h with
  | @accept a a' log bank up pkt hup hacc =>
    refine ⟨bank, up, pkt, true, rfl, fun b u => ?_⟩
    have hflags : a'.retryReq = a.retryReq := by
      obtain ⟨-, -, rfl⟩ | ⟨-, -, rfl⟩ := acceptRequest_cases hacc
      · rfl
      · rfl
    simp [waitsForRetry, hflags]
  | @refuse a log bank up pkt hup hacc =>
    refine ⟨bank, up, pkt, false, rfl, fun b u => ?_⟩
    by_cases hbu : b = bank ∧ u = up
    · obtain ⟨rfl, rfl⟩ := hbu
      simp [DramArb.setRetryReq, waitsForRetry]
    · have hbu' : ¬ (bank = b ∧ up = u) := fun h => hbu ⟨h.1.symm, h.2.symm⟩
      simp [DramArb.setRetryReq, waitsForRetry, set2_of_ne hbu, hbu']

/-- Requests extend the log by their answers, and set the flags of the refused ones. -/
theorem requests_retryReq (h : ReflTransGen (Requested c) s s') :
    ∃ events, s'.log = events ++ s.log ∧
      (∀ e ∈ events, ∃ bank up pkt accepted, e = .request bank up pkt accepted) ∧
      ∀ b u, s'.arb.retryReq b u = (waitsForRetry b u events || s.arb.retryReq b u) := by
  refine star_invariant (I := fun t => ∃ events, t.log = events ++ s.log ∧
    (∀ e ∈ events, ∃ bank up pkt accepted, e = .request bank up pkt accepted) ∧
    ∀ b u, t.arb.retryReq b u = (waitsForRetry b u events || s.arb.retryReq b u)) ?_ h
    ⟨[], rfl, by simp, fun _ _ => rfl⟩
  rintro t t' hreq ⟨events, hlog, hall, hflags⟩
  obtain ⟨bank, up, pkt, accepted, hlog', hflags'⟩ := hreq.retryReq
  refine ⟨.request bank up pkt accepted :: events, by rw [hlog', hlog]; rfl, fun e he => ?_,
    fun b u => ?_⟩
  · rcases List.mem_cons.mp he with rfl | he
    · exact ⟨_, _, _, _, rfl⟩
    · exact hall e he
  · rw [hflags', hflags, ← Bool.or_assoc]
    congr 1
    simp only [waitsForRetry]
    split
    · rw [Bool.or_false]
    · rfl

theorem requests_retryExact (h : ReflTransGen (Requested c) s s') (hs : RetryExact s) :
    RetryExact s' := by
  obtain ⟨events, hlog, hall, hflags⟩ := requests_retryReq h
  intro b u
  rw [hflags, hs b u, hlog, waitsForRetry_append b u s.log hall]

/-! ## The retry after a delivered response -/

/-- The flags and the refusals when the callback returns. -/
theorem sendRetryReq_retryReq (bank : Bank) (target : Nat) (w : World δ) :
    ∃ events, ∀ b u,
      (sendRetryReq c P bank target w).arb.retryReq b u =
        (waitsForRetry b u events || w.arb.retryReq b u) ∧
      waitsForRetry b u (sendRetryReq c P bank target w).log =
        (waitsForRetry b u events || waitsForRetry b u (.retryReq bank target :: w.log)) := by
  obtain ⟨events, hlog, hall, hflags⟩ :=
    requests_retryReq (sendRetryReq_requests (P := P) bank target w)
  refine ⟨events, fun b u => ⟨hflags b u, ?_⟩⟩
  rw [hlog]
  exact waitsForRetry_append b u _ hall

theorem retryAfter_retryExact (hs : RetryExact w.toCore)
    (hsettled : RetrySettled c P bank i target w) :
    RetryExact (retryAfter c P bank i target w).toCore := by
  unfold retryAfter
  split
  · rename_i hflag
    obtain ⟨rfl, hquiet⟩ := hsettled hflag
    obtain ⟨events, hretry⟩ := sendRetryReq_retryReq (P := P) bank target w
    intro b u
    by_cases hbu : b = bank ∧ u = target
    · obtain ⟨rfl, rfl⟩ := hbu
      simp [World.setArb, DramArb.setRetryReq, hquiet]
    · obtain ⟨hflags, hwaits⟩ := hretry b u
      have hbu' : ¬ (bank = b ∧ target = u) := fun h => hbu ⟨h.1.symm, h.2.symm⟩
      rw [waitsForRetry, if_neg hbu', ← hs b u, ← hflags] at hwaits
      simpa [World.setArb, DramArb.setRetryReq, set2_of_ne hbu] using hwaits.symm
  · exact hs

/-- A retry to another port, or a refusal inside the retry, is forgotten with the flag. -/
theorem retrySettled_of_refusalFlagged (hs : RetryExact w.toCore)
    (hafter : RefusalFlagged (retryAfter c P bank i target w).toCore) :
    RetrySettled c P bank i target w := by
  intro hflag
  have hquiet : waitsForRetry bank i (sendRetryReq c P bank target w).log = false := by
    by_contra hwaits
    have hset := hafter bank i
    simp only [retryAfter, hflag, if_true, World.setArb, DramArb.setRetryReq] at hset
    simp [hwaits] at hset
  refine ⟨?_, hquiet⟩
  by_contra hne
  obtain ⟨events, hretry⟩ := sendRetryReq_retryReq (P := P) bank target w
  have hstill : waitsForRetry bank i (.retryReq bank target :: w.log) = true :=
    (waitsForRetry_retryReq bank target i w.log).mpr
      ⟨fun h => hne h.symm, (hs bank i).symm.trans hflag⟩
  rw [(hretry bank i).2, hstill, Bool.or_true] at hquiet
  cases hquiet

/-! ## One iteration of `sendResponse` -/

theorem sendTimingResp_retryExact {pkt : Packet} {up : Nat} {answer : Bool}
    (h : sendTimingResp c P bank up pkt w = (answer, w')) (hs : RetryExact w.toCore) :
    RetryExact w'.toCore := by
  obtain ⟨log, hlog, hw⟩ := sendTimingResp_requests h
  have hexact := requests_retryExact hlog hs
  intro b u
  rw [hw]
  exact hexact b u

theorem Visit.retryExact (h : Visit c P w bank i w') (hs : RetryExact w.toCore)
    (hkept : RetryKept c P w (bank, i)) : RetryExact w'.toCore := by
  cases h with
  | idle => exact hs
  | @refused pkt target rest v hopen hfront hanswer =>
    have hv : RetryExact v.toCore := sendTimingResp_retryExact hanswer hs
    exact hv
  | @taken pkt target rest v hopen hfront hanswer =>
    refine retryAfter_retryExact ?_ (hkept hopen pkt target rest v hfront hanswer)
    rw [popFront_core]
    exact sendTimingResp_retryExact hanswer hs

theorem Visit.retryKept (h : Visit c P w bank i w') (hs : RetryExact w.toCore)
    (hafter : RefusalFlagged w'.toCore) : RetryKept c P w (bank, i) := by
  intro hopen pkt target rest v hfront hanswer
  rw [h.eq_of_taken hopen hfront hanswer] at hafter
  refine retrySettled_of_refusalFlagged ?_ hafter
  rw [popFront_core]
  exact sendTimingResp_retryExact hanswer hs

theorem Visit.log_suffix (h : Visit c P w bank i w') : w.log <:+ w'.log :=
  moves_log_suffix (moves_of_resp h.moves)

/-- An iteration forgets no refusal, and clears flags by retries only, exactly when it meets
`RetryKept`. -/
theorem Visit.retryKept_iff (h : Visit c P w bank i w') (hs : RetryExact w.toCore) :
    RetryKept c P w (bank, i) ↔
      RefusalFlagged w'.toCore ∧ ClearedByRetry w.toCore w'.toCore := by
  constructor
  · intro hkept
    have hs' := h.retryExact hs hkept
    exact ⟨hs'.refusalFlagged, hs.clearedByRetry hs' h.log_suffix⟩
  · exact fun hafter => h.retryKept hs hafter.1

theorem sendResponse_retryExact (hs : RetryExact w.toCore)
    (hkept : Along (sendResponseAt c P) (RetryKept c P) (visits c) w) :
    RetryExact (sendResponse c P w).toCore :=
  hkept.foldl (fun v : World δ => RetryExact v.toCore)
    (fun v bi _ hv hguard => (sendResponseAt_visit v bi.1 bi.2).retryExact hv hguard) hs

/-! ## Steps and runs -/

theorem ArbMove.retryExact (h : ArbMove c s s') (hs : RetryExact s) : RetryExact s' := by
  cases h with
  | event => exact hs
  | offered h =>
    cases h with
    | refused => exact hs
    | taken => exact hs

theorem step_retryExact {action : Action c.numUpstreams δ} (hs : RetryExact w.toCore)
    (hkept : RetryKeptStep c P w action) (hstep : step c P w action = some w') :
    RetryExact w'.toCore := by
  cases action with
  | request bank up pkt =>
    cases hstep
    exact requests_retryExact (.single (recvTimingReqUp_requested up.isLt w)) hs
  | arbitrate =>
    obtain ⟨-, rfl⟩ := step_arbitrate hstep
    have hs' : RetryExact w.clearArbEvent.toCore := hs
    exact star_invariant (fun _ _ => ArbMove.retryExact) (arbitrate_moves w.clearArbEvent) hs'
  | sendResponse =>
    obtain ⟨-, rfl⟩ := step_sendResponse hstep
    exact sendResponse_retryExact hs hkept
  | response bank pkt =>
    obtain ⟨resPkt, reads, up, ups, -, -, -, rfl⟩ := recvTimingResp_cases (step_response hstep)
    rw [accessAndRespond, scheduleSendResponseEvent_core]
    exact hs
  | reqRetry bank =>
    cases hstep
    rw [handleReqRetry, scheduleArbEvent_core]
    exact hs
  | respRetry bank up =>
    cases hstep
    exact sendResponse_retryExact hs hkept
  | rest d =>
    cases hstep
    exact hs

/-- In a run whose iterations meet `RetryKept` every owed retry is remembered, the flag of a port
stays set from a refusal to the next retry to it (so also when the refusal happens inside a retry),
and a step that clears a flag sends the retry to its port. An iteration that does not meet
`RetryKept` forgets a refusal. -/
theorem owed_retry_flagged_iff_kept {d : δ} :
    (∀ w, Reach (Steps (step c P)) (RetryKeptStep c P) (World.init d) w →
      (∀ bank up, owedRetry bank up w.log = true → w.arb.retryReq bank up = true) ∧
      (∀ bank up, w.arb.retryReq bank up = waitsForRetry bank up w.log) ∧
      ∀ action w', RetryKeptStep c P w action → step c P w action = some w' →
        ClearedByRetry w.toCore w'.toCore) ∧
    ∀ (w : World δ) bank i, RetryExact w.toCore →
      (RetryKept c P w (bank, i) ↔
        RefusalFlagged (sendResponseAt c P w (bank, i)).toCore ∧
        ClearedByRetry w.toCore (sendResponseAt c P w (bank, i)).toCore) := by
  constructor
  · intro w h
    have hexact : RetryExact w.toCore :=
      h.invariant (fun v => RetryExact (World.toCore v)) (fun _ _ => rfl)
        fun _ _ _ _ hv hok hstep => step_retryExact hv hok hstep
    refine ⟨hexact.refusalFlagged.retryFlagged, hexact, fun action w' hkept hstep => ?_⟩
    exact hexact.clearedByRetry (step_retryExact hexact hkept hstep)
      (moves_log_suffix (step_moves hstep))
  · exact fun w bank i hs => (sendResponseAt_visit w bank i).retryKept_iff hs

/-- Both upstreams are refused, and the response of upstream 0 brings the retry to it: its flag is
cleared, that of upstream 1 is kept. -/
theorem owed_retry_flagged_after_retry :
    ∃ w, Reach (Steps (step (Config.small 1 1) (Peers.constant true true)))
        (RetryKeptStep _ (Peers.constant true true)) (World.init ()) w ∧
      PortEvent.retryReq 0 0 ∈ w.log ∧ w.arb.retryReq 0 0 = false ∧
      owedRetry 0 1 w.log = true ∧ w.arb.retryReq 0 1 = true := by
  obtain ⟨w, hw, hp⟩ := Reach.of_run (step (Config.small 1 1) (Peers.constant true true))
    (RetryKeptStep _ (Peers.constant true true)) (World.init ())
    [.request 0 0 ⟨0, 64, false⟩, .request 0 0 ⟨1, 128, false⟩, .request 0 1 ⟨2, 192, false⟩,
      .arbitrate, .response 0 ⟨0, 64, false⟩, .sendResponse]
    (fun w => PortEvent.retryReq 0 0 ∈ w.log ∧ waitsForRetry 0 0 w.log = false ∧
      owedRetry 0 1 w.log = true) (by decide +kernel)
  obtain ⟨hretry, hquiet, howed⟩ := of_decide_eq_true hp
  obtain ⟨hflagged, hexact, -⟩ := owed_retry_flagged_iff_kept.1 w hw
  exact ⟨w, hw, hretry, (hexact 0 0).trans hquiet, howed, hflagged 0 1 howed⟩

/-- Two upstreams: upstream 1 reads, upstream 0 is refused, and the response of upstream 1 leaves
at loop index 0. The retry goes to upstream 1 and the flag of upstream 0 is cleared. -/
theorem owed_retry_forgotten :
    ¬ ∀ w, Reach (Steps (step (Config.small 1 1) (Peers.constant true true))) Free
        (World.init ()) w → RetryFlagged w.toCore := by
  intro h
  obtain ⟨w, hw, hp⟩ := Reach.of_run (step (Config.small 1 1) (Peers.constant true true)) Free
    (World.init ())
    [.request 0 1 ⟨0, 64, false⟩, .request 0 0 ⟨1, 128, false⟩, .arbitrate,
      .response 0 ⟨0, 64, false⟩, .sendResponse]
    (fun w => owedRetry 0 0 w.log = true ∧ w.arb.retryReq 0 0 = false) (by decide +kernel)
  obtain ⟨howed, hflag⟩ := of_decide_eq_true hp
  simp [h w hw 0 0 howed] at hflag

end NetSim.Arbiter
