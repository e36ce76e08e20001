import NetSim.Arbiter.Responses

/-!
# The arbiter as a responder

After a refused `sendTimingResp` the arbiter has to wait for the retry of that port. The flag it
sets belongs to the loop index and not to the refusing upstream, so the same response is offered
again from any other index of the bank whose flag is not set: in the rest of the pass, and in
later passes. `PolitePass` is exactly what keeps a pass inside the protocol.
-/

namespace NetSim.Arbiter

open Common Library Relation

/-- Every response was sent on a port that did not await a retry. -/
def ObeysRespRetry : Log → Prop
  | [] => True
  | .sendResp b u _ _ :: log => awaitsRespRetry b u log = false ∧ ObeysRespRetry log
  | .respRetry .. :: log | .request .. :: log | .response .. :: log | .sendReq .. :: log
  | .reqRetry .. :: log | .retryReq .. :: log => ObeysRespRetry log

instance decidableObeysRespRetry : ∀ log, Decidable (ObeysRespRetry log)
  | [] => .isTrue trivial
  | .sendResp b u _ _ :: log =>
    have := decidableObeysRespRetry log
    inferInstanceAs (Decidable (awaitsRespRetry b u log = false ∧ ObeysRespRetry log))
  | .respRetry .. :: log | .request .. :: log | .response .. :: log | .sendReq .. :: log
  | .reqRetry .. :: log | .retryReq .. :: log => decidableObeysRespRetry log

/-- The upstream of the front entry of `bank` owes a retry. -/
def FrontAwaits (s : Core) (bank : Bank) : Prop :=
  ∃ pkt up rest, s.arb.responseQueue bank = (pkt, up) :: rest ∧
    awaitsRespRetry bank up s.log = true

variable {δ : Type} (c : Config) (P : Peers c.numUpstreams δ)

/-- The iteration of `(bank, i)` offers a response that is refused. -/
def Refuses (w : World δ) (bank : Bank) (i : Nat) : Prop :=
  w.arb.retryResp bank i = false ∧ ∃ pkt up rest,
    w.arb.responseQueue bank = (pkt, up) :: rest ∧ (sendTimingResp c P bank up pkt w).1 = false

/-- After a refusal the flags of all remaining iterations of the bank are set. -/
def PoliteVisits : List (Bank × Nat) → World δ → Prop
  | [], _ => True
  | (bank, i) :: rest, w =>
    (Refuses c P w bank i → ∀ j, (bank, j) ∈ rest → j ≠ i → w.arb.retryResp bank j = true) ∧
      PoliteVisits rest (sendResponseAt c P w (bank, i))

/-- What a pass needs: a bank whose front entry belongs to an upstream that owes a retry has all
its flags set, and a refusal happens at the last index of a bank whose flag is not set. -/
def PolitePass (w : World δ) : Prop :=
  (∀ bank, FrontAwaits w.toCore bank → ∀ i, i < c.numUpstreams → w.arb.retryResp bank i = true) ∧
    PoliteVisits c P (visits c) w

/-- What a step needs: every pass of `sendResponse` is polite. -/
def PoliteResponder (w : World δ) : Action c.numUpstreams δ → Prop
  | .sendResponse => PolitePass c P w.clearSendResponseEvent
  | .respRetry bank up => PolitePass c P (w.clearRetryResp bank up)
  | _ => True

/-- The iteration of `(bank, i)` offers nothing, or offers a response to a port that does not await
a retry. -/
def Clear (w : World δ) (bi : Bank × Nat) : Prop :=
  w.arb.retryResp bi.1 bi.2 = false → ¬ FrontAwaits w.toCore bi.1

/-- Only the upstream of the front entry may owe a retry. -/
def OneAwaits (s : Core) : Prop :=
  ∀ bank up, awaitsRespRetry bank up s.log = true →
    ∃ pkt rest, s.arb.responseQueue bank = (pkt, up) :: rest

variable {c P} {s s' : Core} {w w' : World δ} {bank b : Bank} {i : Nat}

/-! ## What does not send responses -/

theorem Requested.obeysRespRetry (h : Requested c s s') :
    ObeysRespRetry s'.log ↔ ObeysRespRetry s.log := by
  cases h with
  | accept => exact Iff.rfl
  | refuse => exact Iff.rfl

theorem requests_obeysRespRetry (h : ReflTransGen (Requested c) s s') :
    ObeysRespRetry s'.log ↔ ObeysRespRetry s.log :=
  star_invariant (I := fun t => ObeysRespRetry t.log ↔ ObeysRespRetry s.log)
    (fun _ _ hreq ht => hreq.obeysRespRetry.trans ht) h Iff.rfl

theorem retryAfter_obeysRespRetry (target : Nat) (w : World δ) :
    ObeysRespRetry (retryAfter c P b i target w).log ↔ ObeysRespRetry w.log := by
  unfold retryAfter
  split
  · have h := requests_obeysRespRetry (sendRetryReq_requests (P := P) b target w)
    exact h
  · exact Iff.rfl

theorem SameResponses.frontAwaits (h : SameResponses bank s s') :
    FrontAwaits s' bank ↔ FrontAwaits s bank := by
  simp only [FrontAwaits, h.queue, h.awaits]

theorem OneAwaits.same (h : OneAwaits s) (hsame : ∀ bank, SameResponses bank s s') :
    OneAwaits s' := by
  intro bank up haw
  rw [(hsame bank).awaits] at haw
  rw [(hsame bank).queue]
  exact h bank up haw

/-! ## One iteration -/

theorem frontAwaits_iff {pkt : Packet} {up : Nat} {rest : List (Packet × Nat)}
    (hfront : s.arb.responseQueue bank = (pkt, up) :: rest) :
    FrontAwaits s bank ↔ awaitsRespRetry bank up s.log = true := by
  constructor
  · rintro ⟨pkt', up', rest', hfront', haw⟩
    rw [hfront] at hfront'
    cases hfront'
    exact haw
  · exact fun haw => ⟨pkt, up, rest, hfront, haw⟩

theorem sendTimingResp_obeys {pkt : Packet} {up : Nat} {answer : Bool}
    (h : sendTimingResp c P bank up pkt w = (answer, w')) :
    ObeysRespRetry w'.log ↔ ObeysRespRetry w.log ∧ awaitsRespRetry bank up w.log = false := by
  obtain ⟨log, hlog, hw⟩ := sendTimingResp_requests h
  have hobeys := requests_obeysRespRetry hlog
  have hawaits : awaitsRespRetry bank up log = awaitsRespRetry bank up w.log :=
    (requests_same hlog).awaits up
  simp only at hobeys
  rw [hw, ObeysRespRetry, hawaits, hobeys]
  exact and_comm

/-- An iteration keeps the protocol exactly when it is clear. -/
theorem Visit.obeys (h : Visit c P w bank i w') :
    ObeysRespRetry w'.log ↔ ObeysRespRetry w.log ∧ Clear w (bank, i) := by
  cases h with
  | idle h =>
    refine (and_iff_left fun hopen => ?_).symm
    rintro ⟨pkt, up, rest, hfront, -⟩
    obtain hflag | hempty := h
    · exact absurd hflag (by simp [hopen])
    · exact absurd hempty (by simp [hfront])
  | refused hopen hfront hanswer =>
    simp only [Clear, hopen, frontAwaits_iff hfront, true_imp_iff, Bool.not_eq_true]
    have h := sendTimingResp_obeys hanswer
    exact h
  | taken hopen hfront hanswer =>
    rw [retryAfter_obeysRespRetry, popFront_core]
    simp only [Clear, hopen, frontAwaits_iff hfront, true_imp_iff, Bool.not_eq_true]
    have h := sendTimingResp_obeys hanswer
    exact h

/-- While a clear iteration offers a response, no upstream owes a retry on the bank. -/
theorem none_awaits (hone : OneAwaits w.toCore) (hclear : Clear w (bank, i))
    (hopen : w.arb.retryResp bank i = false) (up : Nat) :
    awaitsRespRetry bank up w.log = false := by
  rw [Bool.eq_false_iff]
  intro haw
  obtain ⟨pkt', rest', hfront'⟩ := hone bank up haw
  exact hclear hopen ⟨pkt', up, rest', hfront', haw⟩

/-- What a clear iteration does to the retries that are owed on its bank: it does nothing, it is
refused, or it is taken and no retry is owed. -/
theorem Visit.outcome (h : Visit c P w bank i w') (hone : OneAwaits w.toCore)
    (hclear : Clear w (bank, i)) :
    (w' = w ∧ ¬ Refuses c P w bank i) ∨
    (Refuses c P w bank i ∧
      (∀ up, awaitsRespRetry bank up w'.log = true →
        ∃ pkt rest, w'.arb.responseQueue bank = (pkt, up) :: rest) ∧
      FrontAwaits w'.toCore bank ∧
      w'.arb.retryResp bank = Function.update (w.arb.retryResp bank) i true) ∨
    (w.arb.retryResp bank i = false ∧ ¬ Refuses c P w bank i ∧
      ∀ up, awaitsRespRetry bank up w'.log = false) := by
  cases h with
  | idle h =>
    refine .inl ⟨rfl, ?_⟩
    rintro ⟨hopen, pkt, up, rest, hfront, -⟩
    obtain hflag | hempty := h
    · exact absurd hflag (by simp [hopen])
    · exact absurd hempty (by simp [hfront])
  | @refused pkt target rest v hopen hfront hanswer =>
    obtain ⟨log, hlog, hw⟩ := sendTimingResp_requests hanswer
    have hsame : SameResponses bank w.toCore ⟨v.arb, log⟩ := requests_same hlog
    have hqueue : v.arb.responseQueue bank = (pkt, target) :: rest := hsame.queue.trans hfront
    have hflags : v.arb.retryResp bank = w.arb.retryResp bank := hsame.flags
    refine .inr (.inl ⟨⟨hopen, pkt, target, rest, hfront, by rw [hanswer]⟩, fun up haw => ?_,
      ⟨pkt, target, rest, hqueue, by simp [World.setArb, hw, awaitsRespRetry]⟩, ?_⟩)
    · by_cases hup : target = up
      · exact ⟨pkt, rest, hup ▸ hqueue⟩
      · have haw' : awaitsRespRetry bank up log = true := by
          simpa [World.setArb, hw, awaitsRespRetry, hup] using haw
        have hlogEq : awaitsRespRetry bank up log = awaitsRespRetry bank up w.log :=
          hsame.awaits up
        rw [hlogEq, none_awaits hone hclear hopen] at haw'
        cases haw'
    · ext j
      by_cases hj : j = i
      · subst hj
        simp [World.setArb, DramArb.setRetryResp]
      · simp [World.setArb, DramArb.setRetryResp, set2_of_ne, hj, hflags]
  | @taken pkt target rest v hopen hfront hanswer =>
    obtain ⟨log, hlog, hw⟩ := sendTimingResp_requests hanswer
    have hsame : SameResponses bank w.toCore ⟨v.arb, log⟩ := requests_same hlog
    refine .inr (.inr ⟨hopen, ?_, fun up => ?_⟩)
    · rintro ⟨-, pkt', up', rest', hfront', hrefused⟩
      rw [hfront] at hfront'
      cases hfront'
      simp [hanswer] at hrefused
    · have hlogEq : awaitsRespRetry bank up log = awaitsRespRetry bank up w.log :=
        hsame.awaits up
      have hnone := none_awaits hone hclear hopen up
      rw [(retryAfter_same target _).awaits, popFront_core]
      simp [hw, awaitsRespRetry, hlogEq, hnone]

theorem Visit.oneAwaits (h : Visit c P w b i w') (hone : OneAwaits w.toCore)
    (hclear : Clear w (b, i)) : OneAwaits w'.toCore := by
  intro bank up haw
  by_cases hb : bank = b
  · subst hb
    obtain ⟨rfl, -⟩ | ⟨-, hfront, -⟩ | ⟨-, -, hnone⟩ := h.outcome hone hclear
    · exact hone bank up haw
    · exact hfront up haw
    · simp [hnone up] at haw
  · have hsame := h.same hb
    rw [hsame.awaits] at haw
    rw [hsame.queue]
    exact hone bank up haw

/-! ## A pass -/

/-- When the front entry of `bank` awaits a retry, the flags of all iterations of the bank in `xs`
are set. -/
def FlagsSet (xs : List (Bank × Nat)) (s : Core) (bank : Bank) : Prop :=
  FrontAwaits s bank → ∀ i, (bank, i) ∈ xs → s.arb.retryResp bank i = true

theorem Visit.flagsSet_of_ne {xs : List (Bank × Nat)} (h : Visit c P w b i w') (hb : bank ≠ b) :
    FlagsSet xs w'.toCore bank ↔ FlagsSet ((b, i) :: xs) w.toCore bank := by
  have hsame := h.same hb
  simp only [FlagsSet, hsame.frontAwaits, hsame.flags, List.mem_cons, Prod.mk.injEq, hb,
    false_and, false_or]

/-- On its own bank an iteration is clear and leaves the flags of the later iterations set exactly
when all flags were set, and a refusal leaves no open index behind it. -/
theorem Visit.flagsSet_iff {xs : List (Bank × Nat)} (h : Visit c P w b i w')
    (hone : OneAwaits w.toCore) :
    Clear w (b, i) ∧ FlagsSet xs w'.toCore b ↔
      FlagsSet ((b, i) :: xs) w.toCore b ∧
        (Refuses c P w b i → ∀ j, (b, j) ∈ xs → j ≠ i → w.arb.retryResp b j = true) := by
  have hclear (hflags : FlagsSet ((b, i) :: xs) w.toCore b) : Clear w (b, i) := by
    intro hopen hfront
    have hflag := hflags hfront i List.mem_cons_self
    simp [hflag] at hopen
  by_cases hw : Clear w (b, i)
  · obtain ⟨hidle, hno⟩ | ⟨hrefuses, -, hfront, hrow⟩ | ⟨hopen, hno, hnone⟩ := h.outcome hone hw
    · rw [hidle]
      -- nothing was offered: the front entry awaits no retry, or the flag of `i` is set
      have hi (hfront : FrontAwaits w.toCore b) : w.arb.retryResp b i = true := by
        by_contra hopen
        exact hw (by simpa using hopen) hfront
      refine ⟨fun hset => ⟨fun hfront j hj => ?_, fun hrefuses => absurd hrefuses hno⟩,
        fun hset => ⟨hw, fun hfront j hj => hset.1 hfront j (List.mem_cons_of_mem _ hj)⟩⟩
      obtain hj | hj := List.mem_cons.mp hj
      · cases hj
        exact hi hfront
      · exact hset.2 hfront j hj
    · have hfree : ¬ FrontAwaits w.toCore b := hw hrefuses.1
      simp only [FlagsSet, hw, hfree, hfront, hrow, hrefuses, true_and, true_imp_iff,
        false_imp_iff]
      refine forall_congr' fun j => imp_congr_right fun _ => ?_
      by_cases hj : j = i
      · simp [hj]
      · simp [hj, Function.update_of_ne]
    · have hfree : ¬ FrontAwaits w.toCore b := hw hopen
      refine iff_of_true ⟨hw, ?_⟩
        ⟨fun hfront => absurd hfront hfree, fun hrefuses => absurd hrefuses hno⟩
      rintro ⟨pkt, up, rest, -, haw⟩
      simp [hnone up] at haw
  · exact iff_of_false (fun h => hw h.1) fun h => hw (hclear h.1)

/-- The iterations of a pass are clear exactly when the pass starts with all flags set on the banks
whose front entry awaits a retry, and every refusal leaves no open index behind it. -/
theorem along_clear_iff (xs : List (Bank × Nat)) (hone : OneAwaits w.toCore) :
    Along (sendResponseAt c P) Clear xs w ↔
      (∀ bank, FlagsSet xs w.toCore bank) ∧ PoliteVisits c P xs w := by
  induction xs generalizing w with
  | nil => simp [Along, PoliteVisits, FlagsSet]
  | cons bi xs ih =>
    obtain ⟨b, i⟩ := bi
    have hvisit := sendResponseAt_visit (P := P) w b i
    have hself : Clear w (b, i) ∧ FlagsSet xs _ b ↔ _ := hvisit.flagsSet_iff hone
    constructor
    · rintro ⟨hclear, hrest⟩
      obtain ⟨hflags, hpolite⟩ := (ih (hvisit.oneAwaits hone hclear)).mp hrest
      obtain ⟨hset, hbehind⟩ := hself.mp ⟨hclear, hflags b⟩
      refine ⟨fun bank => ?_, hbehind, hpolite⟩
      by_cases hb : bank = b
      · exact hb ▸ hset
      · exact (hvisit.flagsSet_of_ne hb).mp (hflags bank)
    · rintro ⟨hflags, hbehind, hpolite⟩
      obtain ⟨hclear, hset⟩ := hself.mpr ⟨hflags b, hbehind⟩
      refine ⟨hclear, (ih (hvisit.oneAwaits hone hclear)).mpr ⟨fun bank => ?_, hpolite⟩⟩
      by_cases hb : bank = b
      · exact hb ▸ hset
      · exact (hvisit.flagsSet_of_ne hb).mpr (hflags bank)

theorem politePass_iff (hone : OneAwaits w.toCore) :
    PolitePass c P w ↔ Along (sendResponseAt c P) Clear (visits c) w := by
  rw [along_clear_iff (visits c) hone]
  simp only [PolitePass, FlagsSet, mem_visits]

theorem sendResponse_obeys (w : World δ) :
    ObeysRespRetry (sendResponse c P w).log ↔
      ObeysRespRetry w.log ∧ Along (sendResponseAt c P) Clear (visits c) w :=
  foldl_iff_along (fun v : World δ => ObeysRespRetry v.log)
    fun v bi => (sendResponseAt_visit v bi.1 bi.2).obeys

theorem sendResponse_oneAwaits (hone : OneAwaits w.toCore)
    (hclear : Along (sendResponseAt c P) Clear (visits c) w) :
    OneAwaits (sendResponse c P w).toCore :=
  hclear.foldl (fun v : World δ => OneAwaits v.toCore)
    (fun v bi _ hv hguard => (sendResponseAt_visit v bi.1 bi.2).oneAwaits hv hguard) hone

/-! ## Steps and runs -/

theorem clearRetryResp_oneAwaits (up : Nat) (hone : OneAwaits w.toCore) :
    OneAwaits (w.clearRetryResp b up).toCore := by
  intro bank u haw
  have haw' : awaitsRespRetry bank u w.log = true := by
    simp only [World.clearRetryResp, World.note, World.setArb, awaitsRespRetry] at haw
    split at haw
    · cases haw
    · exact haw
  exact hone bank u haw'

theorem recvTimingResp_oneAwaits {pkt : Packet} (hone : OneAwaits w.toCore)
    (h : recvTimingResp c P pkt b w = .ok w') : OneAwaits w'.toCore := by
  obtain ⟨resPkt, reads, up, ups, -, -, -, rfl⟩ := recvTimingResp_cases h
  unfold accessAndRespond
  rw [scheduleSendResponseEvent_core]
  intro bank u haw
  obtain ⟨pkt', rest, hfront⟩ := hone bank u haw
  by_cases hb : bank = b
  · subst hb
    refine ⟨pkt', rest ++ [(resPkt, up)], ?_⟩
    simp [World.note, World.setArb, DramArb.dropRecord, DramArb.pushResponse, hfront]
  · refine ⟨pkt', rest, ?_⟩
    simp [World.note, World.setArb, DramArb.dropRecord, DramArb.pushResponse, hb, hfront]

theorem ArbMove.obeysRespRetry (h : ArbMove c s s') :
    ObeysRespRetry s'.log ↔ ObeysRespRetry s.log := by
  cases h with
  | event => exact Iff.rfl
  | offered h =>
    cases h with
    | refused => exact Iff.rfl
    | taken => exact Iff.rfl

theorem arbitrate_obeysRespRetry (w : World δ) :
    ObeysRespRetry (arbitrate c P w).log ↔ ObeysRespRetry w.log :=
  star_invariant (I := fun t => ObeysRespRetry t.log ↔ ObeysRespRetry w.log)
    (fun _ _ hmove ht => hmove.obeysRespRetry.trans ht) (arbitrate_moves w) Iff.rfl

/-- What a step from `w` to `w'` does to the protocol and to the retries that are owed, when
`polite` is its condition. -/
structure RespStep (w w' : World δ) (polite : Prop) : Prop where
  lost : ObeysRespRetry w'.log → ObeysRespRetry w.log
  keeps : OneAwaits w.toCore → ObeysRespRetry w.log → (ObeysRespRetry w'.log ↔ polite)
  oneAwaits : OneAwaits w.toCore → ObeysRespRetry w'.log → OneAwaits w'.toCore

/-- A step without a pass. -/
theorem RespStep.quiet {polite : Prop} (hobeys : ObeysRespRetry w'.log ↔ ObeysRespRetry w.log)
    (hpolite : polite) (hone : OneAwaits w.toCore → OneAwaits w'.toCore) :
    RespStep w w' polite :=
  ⟨hobeys.mp, fun _ h => iff_of_true (hobeys.mpr h) hpolite, fun h _ => hone h⟩

/-- A step that runs a pass from `v`. -/
theorem RespStep.pass {v : World δ} (hone : OneAwaits w.toCore → OneAwaits v.toCore)
    (hlog : ObeysRespRetry v.log ↔ ObeysRespRetry w.log) :
    RespStep w (sendResponse c P v) (PolitePass c P v) := by
  have hobeys := sendResponse_obeys (P := P) v
  refine ⟨fun h => ?_, fun h hw => ?_, fun h hw' => ?_⟩
  · exact hlog.mp (hobeys.mp h).1
  · rw [politePass_iff (hone h), hobeys]
    exact and_iff_right (hlog.mpr hw)
  · exact sendResponse_oneAwaits (hone h) (hobeys.mp hw').2

theorem step_obeysRespRetry {action : Action c.numUpstreams δ}
    (hstep : step c P w action = some w') : RespStep w w' (PoliteResponder c P w action) := by
  cases action with
  | request bank up pkt =>
    cases hstep
    have h : Requested c w.toCore (recvTimingReqUp c P pkt bank up w).2.toCore :=
      recvTimingReqUp_requested up.isLt w
    exact .quiet h.obeysRespRetry trivial fun hone => hone.same fun _ => h.same
  | arbitrate =>
    obtain ⟨-, rfl⟩ := step_arbitrate hstep
    refine .quiet (arbitrate_obeysRespRetry w.clearArbEvent) trivial fun hone => ?_
    have hone' : OneAwaits w.clearArbEvent.toCore := hone
    exact hone'.same fun _ => arbitrate_same w.clearArbEvent
  | sendResponse =>
    obtain ⟨-, rfl⟩ := step_sendResponse hstep
    exact .pass id Iff.rfl
  | response bank pkt =>
    have hresp := step_response hstep
    refine .quiet ?_ trivial fun hone => recvTimingResp_oneAwaits hone hresp
    obtain ⟨resPkt, reads, up, ups, -, -, -, rfl⟩ := recvTimingResp_cases hresp
    rw [accessAndRespond, scheduleSendResponseEvent_core]
    exact Iff.rfl
  | reqRetry bank =>
    cases hstep
    have hcore := scheduleArbEvent_core (P := P) (w.note (.reqRetry bank))
    refine .quiet ?_ trivial ?_
    · rw [handleReqRetry, hcore]
      exact Iff.rfl
    · rw [handleReqRetry, hcore]
      exact id
  | respRetry bank up =>
    cases hstep
    exact .pass (clearRetryResp_oneAwaits up) Iff.rfl
  | rest d =>
    cases hstep
    exact .quiet Iff.rfl trivial id

/-- The runs in which the arbiter always waits for the response retry are exactly those in which
every pass is polite. -/
theorem waits_for_respRetry_iff {d : δ} :
    Reach (Steps (step c P)) (PoliteResponder c P) (World.init d) w ↔
      Reach (Steps (step c P)) Free (World.init d) w ∧ ObeysRespRetry w.log := by
  refine Reach.iff_of_step_iff (fun v : World δ => ObeysRespRetry v.log)
    (fun v => OneAwaits (World.toCore v)) trivial ?_ ?_ ?_ ?_
  · intro bank up haw
    cases haw
  · exact fun _ _ _ hstep => (step_obeysRespRetry hstep).lost
  · exact fun _ _ _ hstep h hone => (step_obeysRespRetry hstep).keeps hone h
  · exact fun _ _ _ hstep _ hone h => (step_obeysRespRetry hstep).oneAwaits hone h

/-- Two upstreams, one of which refuses its response: the pass offers it again at the next loop
index. -/
theorem respRetry_not_awaited :
    ¬ ∀ w, Reach (Steps (step (Config.small 1 1) (Peers.constant true false))) Free
        (World.init ()) w → ObeysRespRetry w.log := by
  intro h
  obtain ⟨w, hw, hp⟩ := Reach.of_run (step (Config.small 1 1) (Peers.constant true false)) Free
    (World.init ())
    [.request 0 0 ⟨0, 64, false⟩, .arbitrate, .response 0 ⟨0, 64, false⟩, .sendResponse]
    (fun w => ¬ ObeysRespRetry w.log) (by decide +kernel)
  exact of_decide_eq_true hp (h w hw)

end NetSim.Arbiter
