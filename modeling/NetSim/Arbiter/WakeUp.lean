import NetSim.Arbiter.Credit
import NetSim.Arbiter.Pending
import NetSim.Arbiter.RequestRetry

/-!
# Refused upstreams and the work of their bank

A refused upstream is woken up by `sendRetryReq`, which happens only after a delivered response.
While its bank has work there may be such a response; when the last work of the bank is gone the
upstream sleeps for ever. Sending the last buffered write of a bank wakes nobody, and delivering
the last response wakes one upstream at most, and only when the flag of the loop index is set.
`LastSend` and `LastDelivery` are exactly what keeps every refused upstream from being left alone.
-/

namespace NetSim.Arbiter

open Common Library Relation

variable {δ : Type} (c : Config) (P : Peers c.numUpstreams δ)

/-- The input buffers, the records and the response queue of a bank are not all empty. -/
def HasWork (a : DramArb) (bank : Bank) : Prop :=
  (∃ up, up < c.numUpstreams ∧ (a.readInBufs bank up ≠ [] ∨ a.writeInBufs bank up ≠ [])) ∨
    (a.outstandingReads bank).entries ≠ [] ∨ a.responseQueue bank ≠ []

/-- A refused upstream of `bank` has a bank with work. -/
def AwakeAt (s : Core) (bank : Bank) : Prop :=
  ∀ up, waitsForRetry bank up s.log = true → HasWork c s.arb bank

/-- What a turn of a bank needs: a request that is taken while an upstream waits is not the last
work of the bank. -/
def LastSend (r : Round δ) (bank : Bank) : Prop :=
  ∀ h ∈ takenHead c P bank (offers c r.world.arb bank) r.world.rest,
    (∃ up, waitsForRetry bank up r.world.log = true) →
      2 ≤ buffered c r.world.arb bank ∨ (r.world.arb.outstandingReads bank).entries ≠ [] ∨
        r.world.arb.responseQueue bank ≠ []

/-- What the delivery of the last work of a bank to `target` at the loop index `i` needs: no
upstream waits, or the flag of `i` is set and only `target` waits or a request is made on the bank
inside the retry. `w` is the world after the response was popped. -/
def WakesUp (bank : Bank) (i target : Nat) (w : World δ) : Prop :=
  (∀ up, waitsForRetry bank up w.log = false) ∨
  (w.arb.retryReq bank i = true ∧
    ((∀ up, waitsForRetry bank up w.log = true → up = target) ∨
      ∃ inside up pkt accepted,
        (sendRetryReq c P bank target w).log = inside ++ .retryReq bank target :: w.log ∧
        PortEvent.request bank up pkt accepted ∈ inside))

/-- What an iteration of `sendResponse` needs when its response is the last work of the bank. -/
def LastDelivery (w : World δ) (bi : Bank × Nat) : Prop :=
  w.arb.retryResp bi.1 bi.2 = false → ∀ pkt target rest w',
    w.arb.responseQueue bi.1 = (pkt, target) :: rest →
    sendTimingResp c P bi.1 target pkt w = (true, w') →
    ¬ HasWork c (popFront c P bi.1 w').arb bi.1 →
    WakesUp c P bi.1 bi.2 target (popFront c P bi.1 w')

/-- What a step needs. -/
def WakeUpStep (w : World δ) : Action c.numUpstreams δ → Prop
  | .arbitrate => Along (arbitrateStep c P) (LastSend c P) banks ⟨false, false, w.clearArbEvent⟩
  | .sendResponse =>
    Along (sendResponseAt c P) (LastDelivery c P) (visits c) w.clearSendResponseEvent
  | .respRetry bank up =>
    Along (sendResponseAt c P) (LastDelivery c P) (visits c) (w.clearRetryResp bank up)
  | _ => True

variable {c P} {s s' : Core} {w w' : World δ} {bank b : Bank} {i target : Nat}

/-! ## Work -/

theorem hasWork_iff_buffered {a : DramArb} :
    HasWork c a bank ↔ 0 < buffered c a bank ∨ (a.outstandingReads bank).entries ≠ [] ∨
      a.responseQueue bank ≠ [] := by
  apply or_congr_left
  rw [Nat.pos_iff_ne_zero, ne_eq, buffered_eq_zero_iff]
  constructor
  · rintro ⟨up, hup, hne⟩ hempty
    have := hempty up hup
    tauto
  · intro h
    by_contra hnone
    refine h fun up hup => ?_
    have : ¬ (a.readInBufs bank up ≠ [] ∨ a.writeInBufs bank up ≠ []) :=
      fun hne => hnone ⟨up, hup, hne⟩
    tauto

/-- Work depends on the fields of the bank only. -/
theorem hasWork_congr {a a' : DramArb}
    (hbufs : ∀ kind up, a'.inBufs kind bank up = a.inBufs kind bank up)
    (hreads : a'.outstandingReads bank = a.outstandingReads bank)
    (hqueue : a'.responseQueue bank = a.responseQueue bank) :
    HasWork c a' bank ↔ HasWork c a bank := by
  simp only [HasWork, DramArb.readInBufs, DramArb.writeInBufs, hbufs, hreads, hqueue]

theorem HasWork.congr {a a' : DramArb} (h : HasWork c a bank)
    (hbufs : ∀ kind up, a'.inBufs kind bank up = a.inBufs kind bank up)
    (hreads : a'.outstandingReads bank = a.outstandingReads bank)
    (hqueue : a'.responseQueue bank = a.responseQueue bank) : HasWork c a' bank :=
  (hasWork_congr hbufs hreads hqueue).mpr h

/-- A bank without work accepts every request. -/
theorem idle_accepts {a : DramArb} {log : Log} {up : Nat} (hbuf : 1 ≤ c.bufSize)
    (hcredit : Credit c ⟨a, log⟩) (hup : up < c.numUpstreams) (hidle : ¬ HasWork c a bank)
    (pkt : Packet) : acceptRequest c a pkt bank up ≠ none := by
  have hlimit := Config.limit_pos hbuf
  simp only [HasWork, not_or, not_exists, not_and, ne_eq, not_not] at hidle
  obtain ⟨hbufs, hreads, hqueue⟩ := hidle
  have hcount : a.nbrOutstandingReads bank = 0 := by
    rw [hcredit.count bank]
    simp [QueueMap.total, hreads]
  have hwrite : a.writeInBufs bank up = [] := (hbufs up hup).2
  cases hread : pkt.isRead with
  | true => simp [acceptRequest, hread, hcount, hqueue, hlimit]
  | false =>
    simp only [DramArb.writeInBufs] at hwrite
    simp [acceptRequest, hread, hwrite, hlimit]

/-! ## Requests -/

/-- After a request its bank has work, and the other banks are as before. -/
theorem Requested.work (hbuf : 1 ≤ c.bufSize) (hcredit : Credit c s) (h : Requested c s s') :
    ∃ bank up pkt accepted, s'.log = .request bank up pkt accepted :: s.log ∧
      HasWork c s'.arb bank ∧
      ∀ b, b ≠ bank → (HasWork c s'.arb b ↔ HasWork c s.arb b) := by
  cases h with
  | @accept a a' log bank up pkt hup hacc =>
    refine ⟨bank, up, pkt, true, rfl, .inl ⟨up, hup, ?_⟩, fun b hb => ?_⟩
    · obtain ⟨-, -, rfl⟩ | ⟨-, -, rfl⟩ := acceptRequest_cases hacc
      · left
        simp [DramArb.recordRead, DramArb.pushInBuf]
      · right
        simp [DramArb.pushInBuf]
    · obtain ⟨-, -, rfl⟩ | ⟨-, -, rfl⟩ := acceptRequest_cases hacc
      · refine hasWork_congr (fun kind u => ?_) ?_ rfl
        · change (a.pushInBuf .read bank up pkt).inBufs kind b u = _
          simp [DramArb.pushInBuf_inBufs, hb]
        · simp [DramArb.recordRead, DramArb.pushInBuf, hb]
      · refine hasWork_congr (fun kind u => ?_) rfl rfl
        change (a.pushInBuf .write bank up pkt).inBufs kind b u = _
        simp [DramArb.pushInBuf_inBufs, hb]
  | @refuse a log bank up pkt hup hacc =>
    refine ⟨bank, up, pkt, false, rfl, ?_, fun b hb => Iff.rfl⟩
    by_contra hidle
    exact idle_accepts hbuf hcredit hup hidle pkt hacc

/-- Requests either touch a bank and leave it with work, or leave it as it was. -/
theorem requests_work (hbuf : 1 ≤ c.bufSize) (hcredit : Credit c s)
    (h : ReflTransGen (Requested c) s s') (bank : Bank) :
    Credit c s' ∧ ∃ inside, s'.log = inside ++ s.log ∧
      (((∃ up pkt accepted, PortEvent.request bank up pkt accepted ∈ inside) ∧
          HasWork c s'.arb bank) ∨
        ((∀ up pkt accepted, PortEvent.request bank up pkt accepted ∉ inside) ∧
          (HasWork c s'.arb bank ↔ HasWork c s.arb bank) ∧
          ∀ up, waitsForRetry bank up s'.log = waitsForRetry bank up s.log)) := by
  refine star_invariant (I := fun t => Credit c t ∧ ∃ inside, t.log = inside ++ s.log ∧
      (((∃ up pkt accepted, PortEvent.request bank up pkt accepted ∈ inside) ∧
          HasWork c t.arb bank) ∨
        ((∀ up pkt accepted, PortEvent.request bank up pkt accepted ∉ inside) ∧
          (HasWork c t.arb bank ↔ HasWork c s.arb bank) ∧
          ∀ up, waitsForRetry bank up t.log = waitsForRetry bank up s.log))) ?_ h
    ⟨hcredit, [], rfl, .inr ⟨by simp, Iff.rfl, fun _ => rfl⟩⟩
  rintro t t' hreq ⟨hc, inside, hlog, hcases⟩
  refine ⟨hc.requested (by omega) hreq, ?_⟩
  obtain ⟨b, u, pkt, accepted, hlog', hwork, hother⟩ := hreq.work hbuf hc
  refine ⟨.request b u pkt accepted :: inside, by rw [hlog', hlog]; rfl, ?_⟩
  by_cases hb : bank = b
  · subst hb
    exact .inl ⟨⟨u, pkt, accepted, List.mem_cons_self⟩, hwork⟩
  · rw [hother bank hb]
    obtain ⟨⟨u', pkt', accepted', hmem⟩, hw⟩ | ⟨hnone, hw, hwaits⟩ := hcases
    · exact .inl ⟨⟨u', pkt', accepted', List.mem_cons_of_mem _ hmem⟩, hw⟩
    · refine .inr ⟨fun u' pkt' accepted' hmem => ?_, hw, fun up => ?_⟩
      · rcases List.mem_cons.mp hmem with heq | hmem
        · cases heq
          exact hb rfl
        · exact hnone u' pkt' accepted' hmem
      · rw [hlog', ← hwaits up]
        simp [waitsForRetry, Ne.symm hb]

theorem requests_awakeAt (hbuf : 1 ≤ c.bufSize) (hcredit : Credit c s)
    (h : ReflTransGen (Requested c) s s') (hawake : AwakeAt c s bank) : AwakeAt c s' bank := by
  obtain ⟨-, inside, -, ⟨-, hwork⟩ | ⟨-, hwork, hwaits⟩⟩ := requests_work hbuf hcredit h bank
  · exact fun _ _ => hwork
  · intro up hup
    rw [hwaits] at hup
    exact hwork.mpr (hawake up hup)

/-! ## The retry after a delivered response -/

/-- After the retry to `target` the bank is awake exactly when it had work, no other upstream
waited, or a request was made on it inside the retry. -/
theorem sendRetryReq_awakeAt_iff (hbuf : 1 ≤ c.bufSize) (hcredit : Credit c w.toCore) :
    AwakeAt c (sendRetryReq c P bank target w).toCore bank ↔
      (¬ HasWork c w.arb bank → (∀ up, waitsForRetry bank up w.log = true → up = target) ∨
        ∃ inside up pkt accepted,
          (sendRetryReq c P bank target w).log = inside ++ .retryReq bank target :: w.log ∧
          PortEvent.request bank up pkt accepted ∈ inside) := by
  have hnote : Credit c (w.note (.retryReq bank target)).toCore := hcredit.frame rfl rfl rfl
  obtain ⟨-, inside, hlog, hcases⟩ :=
    requests_work hbuf hnote (sendRetryReq_requests (P := P) bank target w) bank
  obtain ⟨⟨up, pkt, accepted, hmem⟩, hwork⟩ | ⟨hnone, hwork, hwaits⟩ := hcases
  · exact iff_of_true (fun _ _ => hwork) fun _ => .inr ⟨inside, up, pkt, accepted, hlog, hmem⟩
  · -- nothing was requested on the bank, so it has work exactly when it had before
    have hwaits' (up : Nat) : waitsForRetry bank up (sendRetryReq c P bank target w).log = true ↔
        up ≠ target ∧ waitsForRetry bank up w.log = true := by
      rw [hwaits up]
      exact waitsForRetry_retryReq bank target up w.log
    constructor
    · intro hawake hidle
      refine .inl fun up hup => ?_
      by_contra hne
      exact hidle (hwork.mp (hawake up ((hwaits' up).mpr ⟨hne, hup⟩)))
    · intro h up hup
      obtain ⟨hne, hup⟩ := (hwaits' up).mp hup
      by_contra hidle
      obtain honly | ⟨inside', up', pkt, accepted, hlog', hmem⟩ := h fun hw => hidle (hwork.mpr hw)
      · exact hne (honly up hup)
      · rw [List.append_cancel_right (hlog'.symm.trans hlog)] at hmem
        exact hnone up' pkt accepted hmem

theorem retryAfter_awakeAt (hflag : w.arb.retryReq bank i = true) :
    AwakeAt c (retryAfter c P bank i target w).toCore b ↔
      AwakeAt c (sendRetryReq c P bank target w).toCore b := by
  simp only [retryAfter, hflag, if_true]
  exact Iff.rfl

theorem retryAfter_awakeAt_iff (hbuf : 1 ≤ c.bufSize) (hcredit : Credit c w.toCore) :
    AwakeAt c (retryAfter c P bank i target w).toCore bank ↔
      (¬ HasWork c w.arb bank → WakesUp c P bank i target w) := by
  by_cases hflag : w.arb.retryReq bank i = true
  · rw [retryAfter_awakeAt hflag, sendRetryReq_awakeAt_iff hbuf hcredit]
    refine imp_congr_right fun _ => ?_
    constructor
    · exact fun h => .inr ⟨hflag, h⟩
    · rintro (hnone | ⟨-, h⟩)
      · exact .inl fun up hup => by simp [hnone up] at hup
      · exact h
  · have hsame : retryAfter c P bank i target w = w := by simp [retryAfter, hflag]
    rw [hsame]
    constructor
    · intro hawake hidle
      refine .inl fun up => ?_
      by_contra hup
      exact hidle (hawake up (by simpa using hup))
    · intro h up hup
      by_contra hidle
      obtain hnone | ⟨hflag', -⟩ := h hidle
      · simp [hnone up] at hup
      · exact hflag hflag'

theorem retryAfter_awakeAt_of_ne (hbuf : 1 ≤ c.bufSize) (hcredit : Credit c w.toCore)
    (hb : b ≠ bank) (hawake : AwakeAt c w.toCore b) :
    AwakeAt c (retryAfter c P bank i target w).toCore b := by
  by_cases hflag : w.arb.retryReq bank i = true
  · rw [retryAfter_awakeAt hflag]
    have hnote : Credit c (w.note (.retryReq bank target)).toCore := hcredit.frame rfl rfl rfl
    refine requests_awakeAt hbuf hnote (sendRetryReq_requests bank target w)
      fun up hup => hawake up ?_
    simpa [World.note, waitsForRetry, Ne.symm hb] using hup
  · have hsame : retryAfter c P bank i target w = w := by simp [retryAfter, hflag]
    rw [hsame]
    exact hawake

/-! ## One iteration of `sendResponse` -/

theorem popFront_credit {log : Log} (h : Credit c ⟨w.arb, log⟩) :
    Credit c (popFront c P bank w).toCore := by
  rw [popFront_core]
  have hpop : Credit c ⟨w.arb.popResponse bank, w.log⟩ := h.deliver
  exact hpop.frame rfl rfl rfl

/-- The iteration of a bank keeps its refused upstreams awake exactly when it meets
`LastDelivery`. -/
theorem Visit.awakeAt_iff (hbuf : 1 ≤ c.bufSize) (hcredit : Credit c w.toCore)
    (h : Visit c P w bank i w') (hawake : AwakeAt c w.toCore bank) :
    AwakeAt c w'.toCore bank ↔ LastDelivery c P w (bank, i) := by
  have hpop {pkt : Packet} {target : Nat} {v : World δ}
      (hanswer : sendTimingResp c P bank target pkt w = (true, v)) :
      Credit c (popFront c P bank v).toCore := by
    obtain ⟨log, hlog, -⟩ := sendTimingResp_requests hanswer
    exact popFront_credit (requests_work hbuf hcredit hlog bank).1
  constructor
  · intro hafter hopen pkt target rest v hfront hanswer
    rw [h.eq_of_taken hopen hfront hanswer] at hafter
    exact (retryAfter_awakeAt_iff hbuf (hpop hanswer)).mp hafter
  · intro hlast
    cases h with
    | idle => exact hawake
    | @refused pkt target rest v hopen hfront hanswer =>
      obtain ⟨log, hlog, hw⟩ := sendTimingResp_requests hanswer
      have hv := requests_awakeAt hbuf hcredit hlog hawake
      refine fun up hup => hv up ?_
      simpa [World.setArb, hw, waitsForRetry] using hup
    | @taken pkt target rest v hopen hfront hanswer =>
      rw [retryAfter_awakeAt_iff hbuf (hpop hanswer)]
      exact hlast hopen pkt target rest v hfront hanswer

theorem Visit.awakeAt_of_ne (hbuf : 1 ≤ c.bufSize) (hcredit : Credit c w.toCore)
    (h : Visit c P w bank i w') (hb : b ≠ bank) (hawake : AwakeAt c w.toCore b) :
    AwakeAt c w'.toCore b := by
  cases h with
  | idle h => exact hawake
  | @refused pkt target rest v hopen hfront hanswer =>
    obtain ⟨log, hlog, hw⟩ := sendTimingResp_requests hanswer
    have hv := requests_awakeAt hbuf hcredit hlog hawake
    refine fun up hup => hv up ?_
    simpa [World.setArb, hw, waitsForRetry] using hup
  | @taken pkt target rest v hopen hfront hanswer =>
    obtain ⟨log, hlog, hw⟩ := sendTimingResp_requests hanswer
    have hv := requests_awakeAt hbuf hcredit hlog hawake
    have hpop : Credit c (popFront c P bank v).toCore :=
      popFront_credit (requests_work hbuf hcredit hlog bank).1
    apply retryAfter_awakeAt_of_ne hbuf hpop hb
    rw [popFront_core]
    intro up hup
    have hwork := hv up (by simpa [hw, waitsForRetry] using hup)
    refine hwork.congr (fun _ _ => rfl) rfl ?_
    simp [DramArb.popResponse, hb]

/-! ## One turn of a bank -/

theorem arbitrateStep_waits (r : Round δ) (up : Nat) :
    waitsForRetry b up (arbitrateStep c P r bank).world.log = waitsForRetry b up r.world.log := by
  refine star_invariant
    (I := fun t => waitsForRetry b up t.log = waitsForRetry b up r.world.log) ?_
    (arbitrateBank_offers (P := P) bank r.world) rfl
  intro s s' h hs
  cases h with
  | refused => exact hs
  | taken => exact hs

/-- The turn of a bank keeps its refused upstreams awake exactly when it meets `LastSend`. -/
theorem arbitrateStep_awakeAt_iff {r : Round δ} (hawake : AwakeAt c r.world.toCore bank) :
    AwakeAt c (arbitrateStep c P r bank).world.toCore bank ↔ LastSend c P r bank := by
  unfold AwakeAt LastSend
  simp only [arbitrateStep_waits]
  cases htaken : takenHead c P bank (offers c r.world.arb bank) r.world.rest with
  | none =>
    have harb : (arbitrateStep c P r bank).world.arb = r.world.arb := by
      rw [arbitrateStep_eq]
      exact offerAll_arb (by rw [offerAll_fst, htaken]; rfl)
    rw [harb]
    exact iff_of_true hawake (by simp)
  | some h =>
    obtain ⟨hmem, hpop⟩ := offerAll_taken htaken
    obtain ⟨hup, rest, hhead⟩ := mem_offers hmem
    have harb : (arbitrateStep c P r bank).world.arb = r.world.arb.popInBuf c h.kind bank h.up := by
      rw [arbitrateStep_eq]
      exact hpop
    have hbuffered := buffered_popInBuf hup hhead
    have hwork : HasWork c (r.world.arb.popInBuf c h.kind bank h.up) bank ↔
        2 ≤ buffered c r.world.arb bank ∨ (r.world.arb.outstandingReads bank).entries ≠ [] ∨
          r.world.arb.responseQueue bank ≠ [] := by
      rw [hasWork_iff_buffered]
      apply or_congr_left
      omega
    simp only [harb, hwork, Option.mem_def, Option.some.injEq, forall_eq', forall_exists_index]

theorem arbitrateStep_awakeAt_of_ne {r : Round δ} (hb : b ≠ bank)
    (hawake : AwakeAt c r.world.toCore b) :
    AwakeAt c (arbitrateStep c P r bank).world.toCore b := by
  refine star_invariant (I := fun t => AwakeAt c t b) ?_
    (arbitrateBank_offers (P := P) bank r.world) hawake
  intro s s' h hs
  cases h with
  | refused => exact hs
  | @taken a log kind up pkt rest hup hhead =>
    intro u hu
    refine (hs u hu).congr (fun k v => ?_) rfl rfl
    simp [DramArb.popInBuf_inBufs, hb]

/-! ## Steps and runs -/

/-- Every refused upstream has a bank with work. -/
def Awake (c : Config) (s : Core) : Prop := ∀ bank, AwakeAt c s bank

theorem arbitrate_awake (h : Awake c w.toCore)
    (hlast : Along (arbitrateStep c P) (LastSend c P) banks ⟨false, false, w⟩) :
    Awake c (arbitrate c P w).toCore := by
  have hloop : Awake c (rounds c P w).world.toCore := by
    refine hlast.foldl (fun r : Round δ => Awake c r.world.toCore) ?_ h
    intro r bank _ hr hguard b
    by_cases hb : b = bank
    · subst hb
      exact (arbitrateStep_awakeAt_iff (hr b)).mpr hguard
    · exact arbitrateStep_awakeAt_of_ne hb (hr b)
  rw [arbitrate_core]
  exact hloop

theorem sendResponse_awake (hbuf : 1 ≤ c.bufSize) (hcredit : Credit c w.toCore)
    (h : Awake c w.toCore)
    (hlast : Along (sendResponseAt c P) (LastDelivery c P) (visits c) w) :
    Awake c (sendResponse c P w).toCore := by
  have hloop : Credit c (sendResponse c P w).toCore ∧ Awake c (sendResponse c P w).toCore := by
    refine hlast.foldl (fun v : World δ => Credit c v.toCore ∧ Awake c v.toCore) ?_ ⟨hcredit, h⟩
    rintro v ⟨bank, i⟩ _ ⟨hv, hawake⟩ hguard
    have hvisit := sendResponseAt_visit (P := P) v bank i
    have hcredit := star_invariant (fun _ _ m hs => Credit.respMove (by omega) hs m) hvisit.moves hv
    refine ⟨hcredit, fun b => ?_⟩
    by_cases hb : b = bank
    · subst hb
      exact (hvisit.awakeAt_iff hbuf hv (hawake b)).mpr hguard
    · exact hvisit.awakeAt_of_ne hbuf hv hb (hawake b)
  exact hloop.2

theorem step_awake {action : Action c.numUpstreams δ} (hbuf : 1 ≤ c.bufSize)
    (hcredit : Credit c w.toCore) (h : Awake c w.toCore) (hok : WakeUpStep c P w action)
    (hstep : step c P w action = some w') : Awake c w'.toCore := by
  cases action with
  | request bank up pkt =>
    cases hstep
    have hreq : Requested c w.toCore (recvTimingReqUp c P pkt bank up w).2.toCore :=
      recvTimingReqUp_requested up.isLt w
    exact fun b => requests_awakeAt hbuf hcredit (.single hreq) (h b)
  | arbitrate =>
    obtain ⟨-, rfl⟩ := step_arbitrate hstep
    exact arbitrate_awake h hok
  | sendResponse =>
    obtain ⟨-, rfl⟩ := step_sendResponse hstep
    exact sendResponse_awake hbuf (hcredit.frame rfl rfl rfl) h hok
  | response bank pkt =>
    obtain ⟨resPkt, reads, up, ups, -, -, -, rfl⟩ := recvTimingResp_cases (step_response hstep)
    rw [accessAndRespond, scheduleSendResponseEvent_core]
    intro b u hu
    by_cases hb : b = bank
    · subst hb
      refine .inr (.inr ?_)
      simp [World.note, World.setArb, DramArb.dropRecord, DramArb.pushResponse]
    · refine (h b u hu).congr (fun _ _ => rfl) ?_ ?_
      · simp [World.note, World.setArb, DramArb.dropRecord, DramArb.pushResponse, hb]
      · simp [World.note, World.setArb, DramArb.dropRecord, DramArb.pushResponse, hb]
  | reqRetry bank =>
    cases hstep
    rw [handleReqRetry, scheduleArbEvent_core]
    exact h
  | respRetry bank up =>
    cases hstep
    exact sendResponse_awake hbuf (hcredit.frame rfl rfl rfl) h hok
  | rest d =>
    cases hstep
    exact h

/-! ## Evaluating the conditions -/

/-- The upstreams of the requests on `bank`. -/
def requesters (bank : Bank) (log : Log) : List Nat :=
  log.filterMap fun
    | .request b up _ _ => if b = bank then some up else none
    | _ => none

theorem mem_requesters {up : Nat} {log : Log} :
    up ∈ requesters bank log ↔ ∃ pkt accepted, .request bank up pkt accepted ∈ log := by
  simp only [requesters, List.mem_filterMap]
  constructor
  · rintro ⟨e, he, hup⟩
    split at hup
    · split at hup
      · rename_i hb
        subst hb
        cases hup
        exact ⟨_, _, he⟩
      · cases hup
    · cases hup
  · rintro ⟨pkt, accepted, he⟩
    exact ⟨_, he, by simp⟩

/-- Only who made a request waits. -/
theorem mem_requesters_of_waits {up : Nat} {log : Log} (h : waitsForRetry bank up log = true) :
    up ∈ requesters bank log := by
  induction log with
  | nil => cases h
  | cons e log ih =>
    have hcons (hrest : up ∈ requesters bank log) : up ∈ requesters bank (e :: log) := by
      obtain ⟨pkt, accepted, he⟩ := mem_requesters.mp hrest
      exact mem_requesters.mpr ⟨pkt, accepted, List.mem_cons_of_mem _ he⟩
    cases e with
    | request b u pkt accepted =>
      by_cases hbu : b = bank ∧ u = up
      · obtain ⟨rfl, rfl⟩ := hbu
        exact mem_requesters.mpr ⟨pkt, accepted, List.mem_cons_self⟩
      · rw [waitsForRetry, if_neg hbu] at h
        exact hcons (ih h)
    | retryReq b u =>
      by_cases hbu : b = bank ∧ u = up
      · rw [waitsForRetry, if_pos hbu] at h
        cases h
      · rw [waitsForRetry, if_neg hbu] at h
        exact hcons (ih h)
    | _ => exact hcons (ih h)

instance (bank : Bank) (log : Log) : Decidable (∃ up, waitsForRetry bank up log = true) :=
  decidable_of_iff (∃ up ∈ requesters bank log, waitsForRetry bank up log = true)
    ⟨fun ⟨up, _, h⟩ => ⟨up, h⟩, fun ⟨up, h⟩ => ⟨up, mem_requesters_of_waits h, h⟩⟩

instance (bank : Bank) (log : Log) : Decidable (∀ up, waitsForRetry bank up log = false) :=
  decidable_of_iff (¬ ∃ up, waitsForRetry bank up log = true) (by simp)

instance (bank : Bank) (target : Nat) (log : Log) :
    Decidable (∀ up, waitsForRetry bank up log = true → up = target) :=
  decidable_of_iff (∀ up ∈ requesters bank log, waitsForRetry bank up log = true → up = target)
    ⟨fun h up hup => h up (mem_requesters_of_waits hup) hup, fun h up _ => h up⟩

/-- A request was made on the bank inside the retry. -/
theorem requested_inside_iff (bank : Bank) (target : Nat) (w : World δ) :
    (requesters bank w.log).length <
      (requesters bank (sendRetryReq c P bank target w).log).length ↔
    ∃ inside up pkt accepted,
      (sendRetryReq c P bank target w).log = inside ++ .retryReq bank target :: w.log ∧
      PortEvent.request bank up pkt accepted ∈ inside := by
  obtain ⟨events, hlog, -⟩ := requests_retryReq (sendRetryReq_requests (P := P) bank target w)
  have hlog' : (sendRetryReq c P bank target w).log =
      events ++ .retryReq bank target :: w.log := hlog
  have hlength : (requesters bank (sendRetryReq c P bank target w).log).length =
      (requesters bank events).length + (requesters bank w.log).length := by
    simp [hlog', requesters, List.filterMap_append]
  constructor
  · intro hlt
    have hpos : 0 < (requesters bank events).length := by omega
    obtain ⟨up, hup⟩ := List.exists_mem_of_length_pos hpos
    obtain ⟨pkt, accepted, he⟩ := mem_requesters.mp hup
    exact ⟨events, up, pkt, accepted, hlog', he⟩
  · rintro ⟨inside, up, pkt, accepted, hinside, he⟩
    rw [hlog'] at hinside
    rw [← List.append_cancel_right hinside] at he
    have hpos := List.length_pos_of_mem (mem_requesters.mpr ⟨pkt, accepted, he⟩)
    omega

instance (a : DramArb) (bank : Bank) : Decidable (HasWork c a bank) :=
  decidable_of_iff _ hasWork_iff_buffered.symm

instance (bank : Bank) (i target : Nat) (w : World δ) : Decidable (WakesUp c P bank i target w) :=
  have : Decidable _ := decidable_of_iff _ (requested_inside_iff (P := P) bank target w)
  inferInstanceAs (Decidable (_ ∨ _ ∧ (_ ∨ _)))

instance (r : Round δ) (bank : Bank) : Decidable (LastSend c P r bank) :=
  inferInstanceAs (Decidable (∀ _ ∈ _, _ → _))

instance (w : World δ) (bi : Bank × Nat) : Decidable (LastDelivery c P w bi) :=
  decidable_of_iff _ (forall_taken_iff (Q := fun target w' =>
    ¬ HasWork c (popFront c P bi.1 w').arb bi.1 →
      WakesUp c P bi.1 bi.2 target (popFront c P bi.1 w'))).symm

instance (w : World δ) : ∀ action, Decidable (WakeUpStep c P w action)
  | .arbitrate | .sendResponse | .respRetry _ _ => inferInstanceAs (Decidable (Along _ _ _ _))
  | .request .. | .response .. | .reqRetry _ | .rest _ => .isTrue trivial

/-- In a run whose turns and iterations meet `LastSend` and `LastDelivery` every refused upstream
has a bank with work, and a turn or an iteration that does not meet its condition leaves one
without. -/
theorem refused_upstream_awake_iff {d : δ} (hbuf : 1 ≤ c.bufSize) :
    (∀ w, Reach (Steps (step c P)) (WakeUpStep c P) (World.init d) w →
      ∀ bank up, waitsForRetry bank up w.log = true → HasWork c w.arb bank) ∧
    (∀ (w : World δ) bank i, Credit c w.toCore → Awake c w.toCore →
      Awake c (sendResponseAt c P w (bank, i)).toCore → LastDelivery c P w (bank, i)) ∧
    (∀ (r : Round δ) bank, Awake c r.world.toCore →
      Awake c (arbitrateStep c P r bank).world.toCore → LastSend c P r bank) := by
  refine ⟨fun w h => ?_, fun w bank i hcredit hs hafter => ?_, fun r bank hs hafter => ?_⟩
  · refine h.invariant (fun v => Awake c (World.toCore v)) ?_ fun v _ _ hv hawake hok hstep => ?_
    · intro bank up hup
      cases hup
    · have hcredit : Credit c v.toCore :=
        reach_invariant credit_init (fun _ _ m hs => Credit.move (by omega) hs m) hv
      exact step_awake hbuf hcredit hawake hok hstep
  · exact ((sendResponseAt_visit w bank i).awakeAt_iff hbuf hcredit (hs bank)).mp (hafter bank)
  · exact (arbitrateStep_awakeAt_iff (hs bank)).mp (hafter bank)

/-- A read is sent while the upstream waits, its response is the last work of the bank and brings
the retry, and then a write is refused while another one is buffered. -/
theorem refused_upstream_awake_write :
    ∃ w, Reach (Steps (step (Config.small 1 0) (Peers.constant true true)))
        (WakeUpStep _ (Peers.constant true true)) (World.init ()) w ∧
      PortEvent.sendReq 0 ⟨0, 64, false⟩ true ∈ w.log ∧ PortEvent.retryReq 0 0 ∈ w.log ∧
      waitsForRetry 0 0 w.log = true ∧ HasWork (Config.small 1 0) w.arb 0 := by
  obtain ⟨w, hw, hp⟩ := Reach.of_run (step (Config.small 1 0) (Peers.constant true true))
    (WakeUpStep _ (Peers.constant true true)) (World.init ())
    [.request 0 0 ⟨0, 64, false⟩, .request 0 0 ⟨1, 128, false⟩, .arbitrate,
      .response 0 ⟨0, 64, false⟩, .sendResponse, .request 0 0 ⟨2, 64, true⟩,
      .request 0 0 ⟨3, 64, true⟩]
    (fun w => PortEvent.sendReq 0 ⟨0, 64, false⟩ true ∈ w.log ∧ PortEvent.retryReq 0 0 ∈ w.log ∧
      waitsForRetry 0 0 w.log = true) (by decide +kernel)
  obtain ⟨hsent, hretry, hwaits⟩ := of_decide_eq_true hp
  exact ⟨w, hw, hsent, hretry, hwaits, (refused_upstream_awake_iff (by decide)).1 w hw 0 0 hwaits⟩

/-- One upstream and two writes: the first is accepted, the second refused. When the first is sent
the bank has no work left and the upstream never gets its retry. -/
theorem refused_upstream_asleep :
    ¬ ∀ w, Reach (Steps (step (Config.small 1 0) (Peers.constant true true))) Free
        (World.init ()) w →
      ∀ bank up, waitsForRetry bank up w.log = true → HasWork (Config.small 1 0) w.arb bank := by
  intro h
  obtain ⟨w, hw, hp⟩ := Reach.of_run (step (Config.small 1 0) (Peers.constant true true)) Free
    (World.init ()) [.request 0 0 ⟨0, 64, true⟩, .request 0 0 ⟨1, 64, true⟩, .arbitrate]
    (fun w => waitsForRetry 0 0 w.log = true ∧ buffered (Config.small 1 0) w.arb 0 = 0 ∧
      (w.arb.outstandingReads 0).entries = [] ∧ w.arb.responseQueue 0 = []) (by decide +kernel)
  obtain ⟨hwaits, hbuffered, hreads, hqueue⟩ := of_decide_eq_true hp
  have hwork := hasWork_iff_buffered.mp (h w hw 0 0 hwaits)
  simp [hbuffered, hreads, hqueue] at hwork

end NetSim.Arbiter
