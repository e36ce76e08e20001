import NetSim.Arbiter.Moves

/-!
# Progress of responses

A response that waits in `responseQueue` is never forgotten: `sendResponseEvent` is scheduled, or
the upstream of the front entry has refused it and owes a retry. The flag `retryResp` that a
refusal sets belongs to the loop index and not to the refusing upstream, so the invariant is about
the whole row of flags of a bank: they are all set only while the upstream of the front entry owes
a retry (`Blocked`).
-/

namespace NetSim.Arbiter

open Common Library Relation

/-- `up` has refused `pkt` on `bank`; since then it has not called `recvRespRetry` there and no
response of `bank` was taken. -/
def refusing (bank : Bank) (up : Nat) (pkt : Packet) : Log → Bool
  | [] => false
  | .sendResp b u p accepted :: log =>
    if b = bank then !accepted && (decide (u = up ∧ p = pkt) || refusing bank up pkt log)
    else refusing bank up pkt log
  | .respRetry b u :: log => if b = bank ∧ u = up then false else refusing bank up pkt log
  | .request .. :: log | .sendReq .. :: log | .reqRetry .. :: log | .response .. :: log
  | .retryReq .. :: log => refusing bank up pkt log

/-- A response on `(bank, up)` was refused and `handleRespRetry(bank, up)` has not been called
since. -/
def awaitsRespRetry (bank : Bank) (up : Nat) : Log → Bool
  | [] => false
  | .sendResp b u _ accepted :: log =>
    if b = bank ∧ u = up then !accepted || awaitsRespRetry bank up log
    else awaitsRespRetry bank up log
  | .respRetry b u :: log => if b = bank ∧ u = up then false else awaitsRespRetry bank up log
  | .request .. :: log | .sendReq .. :: log | .reqRetry .. :: log | .response .. :: log
  | .retryReq .. :: log => awaitsRespRetry bank up log

/-- The upstream of the front entry has refused that entry and owes a retry. -/
def Owes (s : Core) (bank : Bank) : Prop :=
  ∃ pkt up rest, s.arb.responseQueue bank = (pkt, up) :: rest ∧ refusing bank up pkt s.log = true

/-- A waiting response is taken care of. -/
def Served (s : Core) (bank : Bank) : Prop :=
  s.arb.responseQueue bank ≠ [] → s.arb.sendResponseEvent = true ∨ Owes s bank

/-- All flags of a bank are set only while a retry is owed. -/
def Blocked (c : Config) (s : Core) (bank : Bank) : Prop :=
  (∀ i, i < c.numUpstreams → s.arb.retryResp bank i = true) → Owes s bank

/-! ## What leaves the responses of a bank alone -/

/-- Nothing that concerns the responses of `bank` has changed, except that `sendResponseEvent` may
have been scheduled. -/
structure SameResponses (bank : Bank) (s s' : Core) : Prop where
  queue : s'.arb.responseQueue bank = s.arb.responseQueue bank
  flags : s'.arb.retryResp bank = s.arb.retryResp bank
  event : s.arb.sendResponseEvent = true → s'.arb.sendResponseEvent = true
  refusals : ∀ up pkt, refusing bank up pkt s'.log = refusing bank up pkt s.log
  awaits : ∀ up, awaitsRespRetry bank up s'.log = awaitsRespRetry bank up s.log

variable {c : Config} {s s' s'' : Core} {bank b : Bank}

namespace SameResponses

theorem refl : SameResponses bank s s := ⟨rfl, rfl, id, fun _ _ => rfl, fun _ => rfl⟩

theorem trans (h : SameResponses bank s s') (h' : SameResponses bank s' s'') :
    SameResponses bank s s'' where
  queue := h'.queue.trans h.queue
  flags := h'.flags.trans h.flags
  event := h'.event ∘ h.event
  refusals := fun up pkt => (h'.refusals up pkt).trans (h.refusals up pkt)
  awaits := fun up => (h'.awaits up).trans (h.awaits up)

theorem owes (h : SameResponses bank s s') (ho : Owes s bank) : Owes s' bank := by
  obtain ⟨pkt, up, rest, hfront, hlog⟩ := ho
  exact ⟨pkt, up, rest, h.queue.trans hfront, (h.refusals up pkt).trans hlog⟩

theorem served (h : SameResponses bank s s') (hs : Served s bank) : Served s' bank := by
  intro hne
  rw [h.queue] at hne
  exact (hs hne).imp h.event h.owes

theorem blocked (h : SameResponses bank s s') (hs : Blocked c s bank) : Blocked c s' bank := by
  intro hflags
  rw [h.flags] at hflags
  exact h.owes (hs hflags)

end SameResponses

theorem Requested.same (h : Requested c s s') : SameResponses bank s s' := by
  have hresp := h.responses
  refine ⟨by rw [hresp.1], by rw [hresp.2.1], by rw [hresp.2.2]; exact id, fun up pkt => ?_,
    fun up => ?_⟩
  · cases h <;> rfl
  · cases h <;> rfl

theorem ArbMove.same (h : ArbMove c s s') : SameResponses bank s s' := by
  cases h with
  | event => exact ⟨rfl, rfl, id, fun _ _ => rfl, fun _ => rfl⟩
  | offered h =>
    cases h with
    | refused => exact ⟨rfl, rfl, id, fun _ _ => rfl, fun _ => rfl⟩
    | taken => exact ⟨rfl, rfl, id, fun _ _ => rfl, fun _ => rfl⟩

theorem same_of_star {R : Core → Core → Prop} (hR : ∀ s s', R s s' → SameResponses bank s s')
    (h : ReflTransGen R s s') : SameResponses bank s s' :=
  star_invariant (fun _ _ hstep hs => hs.trans (hR _ _ hstep)) h .refl

variable {δ : Type} {P : Peers c.numUpstreams δ} {w w' : World δ} {i : Nat}

theorem requests_same (h : ReflTransGen (Requested c) s s') : SameResponses bank s s' :=
  same_of_star (fun _ _ => Requested.same) h

theorem retryAfter_same (target : Nat) (w : World δ) :
    SameResponses bank w.toCore (retryAfter c P b i target w).toCore := by
  unfold retryAfter
  split
  · have hrun : SameResponses bank (w.note (.retryReq b target)).toCore
        (sendRetryReq c P b target w).toCore := requests_same (sendRetryReq_requests b target w)
    exact ⟨hrun.queue, hrun.flags, hrun.event, hrun.refusals, hrun.awaits⟩
  · exact .refl

/-- A response retry of another bank. -/
theorem clearRetryResp_same {up : Nat} (hb : bank ≠ b) (w : World δ) :
    SameResponses bank w.toCore (w.clearRetryResp b up).toCore := by
  refine ⟨rfl, set2_row_of_ne hb, id, fun u pkt => ?_, fun u => ?_⟩
  · simp [World.clearRetryResp, World.note, World.setArb, refusing, Ne.symm hb]
  · simp [World.clearRetryResp, World.note, World.setArb, awaitsRespRetry, Ne.symm hb]

/-! ## One iteration of `sendResponse` -/

/-- The iterations of another bank. -/
theorem Visit.same (h : Visit c P w b i w') (hb : bank ≠ b) :
    SameResponses bank w.toCore w'.toCore := by
  cases h with
  | idle => exact .refl
  | refused hopen hfront hanswer =>
    obtain ⟨log, hlog, hw⟩ := sendTimingResp_requests hanswer
    refine (requests_same hlog).trans
      ⟨rfl, set2_row_of_ne hb, id, fun up pkt => ?_, fun up => ?_⟩
    · simp [World.setArb, hw, refusing, hb.symm]
    · simp [World.setArb, hw, awaitsRespRetry, hb.symm]
  | @taken pkt target rest v hopen hfront hanswer =>
    obtain ⟨log, hlog, hw⟩ := sendTimingResp_requests hanswer
    refine (requests_same hlog).trans (.trans ?_ (retryAfter_same target _))
    rw [popFront_core]
    refine ⟨by simp [DramArb.popResponse, hb], rfl, by simp +contextual, fun up pkt => ?_,
      fun up => ?_⟩
    · simp [hw, refusing, hb.symm]
    · simp [hw, awaitsRespRetry, hb.symm]

/-- The iterations of the bank itself: afterwards its responses are taken care of, unless the flag
of the loop index was set and nothing was done. -/
theorem Visit.served (h : Visit c P w bank i w') :
    Served w'.toCore bank ∨ (w' = w ∧ w.arb.retryResp bank i = true) := by
  cases h with
  | idle h =>
    obtain hflag | hempty := h
    · exact .inr ⟨rfl, hflag⟩
    · exact .inl fun hne => absurd hempty hne
  | @refused pkt target rest v hopen hfront hanswer =>
    obtain ⟨log, hlog, hw⟩ := sendTimingResp_requests hanswer
    refine .inl fun _ => .inr ⟨pkt, target, rest, ?_, ?_⟩
    · exact (requests_same hlog).queue.trans hfront
    · simp [World.setArb, hw, refusing]
  | @taken pkt target rest v hopen hfront hanswer =>
    obtain ⟨log, hlog, hw⟩ := sendTimingResp_requests hanswer
    refine .inl ((retryAfter_same target _).served fun hne => .inl ?_)
    rw [popFront_core] at hne ⊢
    simp only [DramArb.popResponse, Function.update_self] at hne
    simp [hne]

theorem Visit.blocked (hi : i < c.numUpstreams) (h : Visit c P w bank i w')
    (hblocked : Blocked c w.toCore bank) : Blocked c w'.toCore bank := by
  cases h with
  | idle => exact hblocked
  | @refused pkt target rest v hopen hfront hanswer =>
    obtain ⟨log, hlog, hw⟩ := sendTimingResp_requests hanswer
    refine fun _ => ⟨pkt, target, rest, (requests_same hlog).queue.trans hfront, ?_⟩
    simp [World.setArb, hw, refusing]
  | @taken pkt target rest v hopen hfront hanswer =>
    obtain ⟨log, hlog, hw⟩ := sendTimingResp_requests hanswer
    refine (retryAfter_same target _).blocked fun hflags => ?_
    -- the loop index is below the number of upstreams and its flag was not set
    have hflag := hflags i hi
    rw [popFront_core] at hflag
    have hrow : v.arb.retryResp bank i = w.arb.retryResp bank i :=
      congrFun (requests_same hlog).flags i
    simp [DramArb.popResponse, hrow, hopen] at hflag

/-- Between two iterations of a pass: a bank that is not taken care of yet has only been visited
at indices whose flag is set. -/
def Passed (c : Config) (seen : List (Bank × Nat)) (s : Core) : Prop :=
  ∀ bank, Blocked c s bank ∧
    (Served s bank ∨ ∀ i, (bank, i) ∈ seen → s.arb.retryResp bank i = true)

theorem Visit.passed {seen : List (Bank × Nat)} (hi : i < c.numUpstreams)
    (h : Visit c P w b i w') (hseen : Passed c seen w.toCore) :
    Passed c (seen ++ [(b, i)]) w'.toCore := by
  intro bank
  obtain ⟨hblocked, hdone⟩ := hseen bank
  by_cases hb : bank = b
  · subst hb
    refine ⟨h.blocked hi hblocked, ?_⟩
    obtain hserved | ⟨rfl, hflag⟩ := h.served
    · exact .inl hserved
    · refine hdone.imp id fun hflags j hj => ?_
      rw [List.mem_append, List.mem_singleton] at hj
      obtain hj | hj := hj
      · exact hflags j hj
      · cases hj
        exact hflag
  · have hsame := h.same hb
    refine ⟨hsame.blocked hblocked, hdone.imp hsame.served fun hflags j hj => ?_⟩
    rw [hsame.flags]
    exact hflags j (by simpa [hb] using hj)

/-! ## Handlers -/

/-- A pass of `sendResponse` takes care of the responses of every bank, even when
`sendResponseEvent` is not scheduled at its start. -/
theorem sendResponse_served (hblocked : ∀ bank, Blocked c w.toCore bank) (bank : Bank) :
    Blocked c (sendResponse c P w).toCore bank ∧ Served (sendResponse c P w).toCore bank := by
  have hpassed : Passed c (visits c) (sendResponse c P w).toCore := by
    refine foldl_prefix_invariant (fun seen v => Passed c seen (World.toCore v)) ?_ ?_
    · rintro seen ⟨b, i⟩ v hmem hv
      exact (sendResponseAt_visit v b i).passed (mem_visits.mp hmem) hv
    · exact fun b => ⟨hblocked b, .inr fun i hi => by simp at hi⟩
  obtain ⟨hb, hserved⟩ := hpassed bank
  refine ⟨hb, hserved.elim id fun hflags _ => .inr ?_⟩
  exact hb fun i hi => hflags i (mem_visits.mpr hi)

/-- The invariant between handlers. -/
def ResponsesServed (c : Config) (s : Core) : Prop := ∀ bank, Blocked c s bank ∧ Served s bank

theorem ResponsesServed.same (h : ResponsesServed c s) (hsame : ∀ bank, SameResponses bank s s') :
    ResponsesServed c s' :=
  fun bank => ⟨(hsame bank).blocked (h bank).1, (hsame bank).served (h bank).2⟩

theorem responsesServed_init : ResponsesServed c Core.init := by
  intro bank
  refine ⟨fun hflags => ?_, fun hne => absurd rfl hne⟩
  have hflag := hflags 0 c.numUpstreams_pos
  simp [Core.init, DramArb.init] at hflag

theorem arbitrate_same (w : World δ) :
    SameResponses bank w.toCore (arbitrate c P w).toCore :=
  same_of_star (fun _ _ => ArbMove.same) (arbitrate_moves w)

theorem recvTimingResp_served {pkt : Packet} (h : ResponsesServed c w.toCore)
    (hresp : recvTimingResp c P pkt b w = .ok w') : ResponsesServed c w'.toCore := by
  obtain ⟨resPkt, reads, up, ups, -, -, -, rfl⟩ := recvTimingResp_cases hresp
  unfold accessAndRespond
  rw [scheduleSendResponseEvent_core]
  refine fun bank => ⟨fun hflags => ?_, fun _ => .inl rfl⟩
  obtain ⟨pkt', up', rest, hfront, hlog⟩ := (h bank).1 hflags
  by_cases hb : bank = b
  · subst hb
    refine ⟨pkt', up', rest ++ [(resPkt, up)], ?_, hlog⟩
    simp [World.note, World.setArb, DramArb.dropRecord, DramArb.pushResponse, hfront]
  · refine ⟨pkt', up', rest, ?_, hlog⟩
    simp [World.note, World.setArb, DramArb.dropRecord, DramArb.pushResponse, hb, hfront]

theorem handleRespRetry_served {up : Nat} (hup : up < c.numUpstreams)
    (h : ResponsesServed c w.toCore) : ResponsesServed c (handleRespRetry c P b up w).toCore := by
  refine sendResponse_served fun bank hflags => ?_
  by_cases hb : bank = b
  · subst hb
    have hflag := hflags up hup
    simp [World.clearRetryResp, World.note, World.setArb, DramArb.setRetryResp] at hflag
  · exact (clearRetryResp_same hb w).blocked (h bank).1 hflags

theorem step_responsesServed {action : Action c.numUpstreams δ} (h : ResponsesServed c w.toCore)
    (hstep : step c P w action = some w') : ResponsesServed c w'.toCore := by
  cases action with
  | request bank up pkt =>
    cases hstep
    exact h.same fun _ => (recvTimingReqUp_requested up.isLt w).same
  | arbitrate =>
    obtain ⟨-, rfl⟩ := step_arbitrate hstep
    refine h.same fun bank => ?_
    have hsame : SameResponses bank w.toCore w.clearArbEvent.toCore :=
      ⟨rfl, rfl, id, fun _ _ => rfl, fun _ => rfl⟩
    exact hsame.trans (arbitrate_same w.clearArbEvent)
  | sendResponse =>
    obtain ⟨-, rfl⟩ := step_sendResponse hstep
    refine sendResponse_served fun bank hflags => ?_
    exact (h bank).1 hflags
  | response bank pkt => exact recvTimingResp_served h (step_response hstep)
  | reqRetry bank =>
    cases hstep
    rw [handleReqRetry, scheduleArbEvent_core]
    exact h.same fun _ => ⟨rfl, rfl, id, fun _ _ => rfl, fun _ => rfl⟩
  | respRetry bank up =>
    cases hstep
    exact handleRespRetry_served up.isLt h
  | rest d =>
    cases hstep
    exact h

/-! ## Every run -/

/-- No response is stranded: while `responseQueue[bank]` is not empty, `sendResponseEvent` is
scheduled or the upstream of its front entry has refused that entry and owes a retry. -/
theorem response_not_stranded {d : δ} (h : Reach (Steps (step c P)) Free (World.init d) w)
    (bank : Bank) (hne : w.arb.responseQueue bank ≠ []) :
    w.arb.sendResponseEvent = true ∨
      ∃ pkt up rest, w.arb.responseQueue bank = (pkt, up) :: rest ∧
        refusing bank up pkt w.log = true := by
  have hserved : ResponsesServed c w.toCore :=
    h.invariant (fun v => ResponsesServed c (World.toCore v)) responsesServed_init
      fun _ _ _ _ hv _ hstep => step_responsesServed hv hstep
  exact (hserved bank).2 hne

/-- An upstream that refuses its response owes a retry. -/
theorem response_not_stranded_refused :
    ∃ w, Reach (Steps (step (Config.small 1 0) (Peers.constant true false))) Free
        (World.init ()) w ∧
      w.arb.sendResponseEvent = false ∧
      ∃ pkt up rest, w.arb.responseQueue 0 = (pkt, up) :: rest ∧
        refusing 0 up pkt w.log = true := by
  obtain ⟨w, hw, hp⟩ := Reach.of_run (step (Config.small 1 0) (Peers.constant true false)) Free
    (World.init ())
    [.request 0 0 ⟨0, 64, false⟩, .arbitrate, .response 0 ⟨0, 64, false⟩, .sendResponse]
    (fun w => w.arb.sendResponseEvent = false ∧ w.arb.responseQueue 0 ≠ [])
    (by decide +kernel)
  obtain ⟨hevent, hne⟩ := of_decide_eq_true hp
  refine ⟨w, hw, hevent, (response_not_stranded hw 0 hne).resolve_left ?_⟩
  simp [hevent]

end NetSim.Arbiter
