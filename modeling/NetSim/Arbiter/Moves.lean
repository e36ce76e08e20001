import Mathlib.Logic.Relation
import NetSim.Arbiter.Handlers
import NetSim.Library.Along
import NetSim.Library.Reach

/-!
# Moves of the arbiter

Every handler is a sequence of moves: a request is accepted or refused, the head of an input
buffer is offered to the downstream, the front of a response queue is offered to its upstream, a
retry is sent, a flag or an event is set or cleared. The moves are stated on the arbiter and its
log alone, whatever the peers do. `step_moves` says that a step of a run is a sequence of moves,
so that what every move keeps holds in every run (`reach_of_moves`).
-/

namespace NetSim.Arbiter

open Common Library Relation

/-- A call of `recvTimingReqUp` -/
inductive Requested (c : Config) : Core → Core → Prop
  | accept {a a' : DramArb} {log : Log} {bank : Bank} {up : Nat} {pkt : Packet}
      (hup : up < c.numUpstreams) (h : acceptRequest c a pkt bank up = some a') :
      Requested c ⟨a, log⟩ ⟨{ a' with arbEvent := true }, .request bank up pkt true :: log⟩
  | refuse {a : DramArb} {log : Log} {bank : Bank} {up : Nat} {pkt : Packet}
      (hup : up < c.numUpstreams) (h : acceptRequest c a pkt bank up = none) :
      Requested c ⟨a, log⟩ ⟨a.setRetryReq bank up true, .request bank up pkt false :: log⟩

/-- The head of an input buffer of `bank` is offered to the downstream. -/
inductive Offered (c : Config) (bank : Bank) : Core → Core → Prop
  | refused {a : DramArb} {log : Log} {kind : Kind} {up : Nat} {pkt : Packet}
      {rest : List Packet} (hhead : a.inBufs kind bank up = pkt :: rest) :
      Offered c bank ⟨a, log⟩ ⟨a, .sendReq bank pkt false :: log⟩
  | taken {a : DramArb} {log : Log} {kind : Kind} {up : Nat} {pkt : Packet}
      {rest : List Packet} (hup : up < c.numUpstreams)
      (hhead : a.inBufs kind bank up = pkt :: rest) :
      Offered c bank ⟨a, log⟩ ⟨a.popInBuf c kind bank up, .sendReq bank pkt true :: log⟩

/-- The moves of a pass of `sendResponse`. -/
inductive RespMove (c : Config) : Core → Core → Prop
  | requested {s s' : Core} (h : Requested c s s') : RespMove c s s'
  | delivered {a : DramArb} {log : Log} {bank : Bank} {pkt : Packet} {up : Nat}
      {rest : List (Packet × Nat)} (hfront : a.responseQueue bank = (pkt, up) :: rest) :
      RespMove c ⟨a, log⟩ ⟨a.popResponse bank, .sendResp bank up pkt true :: log⟩
  | bounced {a : DramArb} {log : Log} {bank : Bank} {pkt : Packet} {up i : Nat} :
      RespMove c ⟨a, log⟩ ⟨a.setRetryResp bank i true, .sendResp bank up pkt false :: log⟩
  | retried {a : DramArb} {log : Log} {bank : Bank} {up : Nat} :
      RespMove c ⟨a, log⟩ ⟨a, .retryReq bank up :: log⟩
  | cleared {a : DramArb} {log : Log} {bank : Bank} {i : Nat} :
      RespMove c ⟨a, log⟩ ⟨a.setRetryReq bank i false, log⟩
  | event {a : DramArb} {log : Log} {flag : Bool} :
      RespMove c ⟨a, log⟩ ⟨{ a with sendResponseEvent := flag }, log⟩

/-- The moves of a round of `arbitrate`. -/
inductive ArbMove (c : Config) : Core → Core → Prop
  | offered {s s' : Core} {bank : Bank} (h : Offered c bank s s') : ArbMove c s s'
  | event {a : DramArb} {log : Log} {flag : Bool} :
      ArbMove c ⟨a, log⟩ ⟨{ a with arbEvent := flag }, log⟩

/-- The moves of the arbiter. -/
inductive Move (c : Config) : Core → Core → Prop
  | resp {s s' : Core} (h : RespMove c s s') : Move c s s'
  | arb {s s' : Core} (h : ArbMove c s s') : Move c s s'
  | respRetry {a : DramArb} {log : Log} {bank : Bank} {up : Nat} :
      Move c ⟨a, log⟩ ⟨a.setRetryResp bank up false, .respRetry bank up :: log⟩
  | reqRetry {a : DramArb} {log : Log} {bank : Bank} :
      Move c ⟨a, log⟩ ⟨a, .reqRetry bank :: log⟩
  | response {a : DramArb} {log : Log} {bank : Bank} {pkt resPkt : Packet} {up : Nat}
      {reads : List Packet} {ups : List Nat}
      (hread : (a.outstandingReads bank).get pkt.addr = resPkt :: reads)
      (hcredit : a.nbrOutstandingReads bank ≠ 0)
      (hup : (a.outstandingUpstream bank).get pkt.addr = up :: ups) :
      Move c ⟨a, log⟩
        ⟨(a.dropRecord bank pkt.addr).pushResponse bank resPkt up, .response bank pkt :: log⟩

/-- A sequence of moves of passes of `sendResponse`. -/
abbrev RespMoves (c : Config) : Core → Core → Prop := ReflTransGen (RespMove c)

/-- A sequence of moves. -/
abbrev Moves (c : Config) : Core → Core → Prop := ReflTransGen (Move c)

variable {δ : Type} {c : Config} {P : Peers c.numUpstreams δ} {w w' : World δ}
variable {bank : Bank} {up : Nat} {pkt : Packet}

/-! ## Events -/

theorem scheduleArbEvent_core (w : World δ) :
    (scheduleArbEvent c P w).toCore = ⟨{ w.arb with arbEvent := true }, w.log⟩ := by
  unfold scheduleArbEvent
  split
  · rename_i h
    rw [← h]
  · rfl

theorem scheduleSendResponseEvent_core (w : World δ) :
    (scheduleSendResponseEvent c P w).toCore =
      ⟨{ w.arb with sendResponseEvent := true }, w.log⟩ := by
  unfold scheduleSendResponseEvent
  split
  · rename_i h
    rw [← h]
  · rfl

/-! ## Requests -/

/-- What an accepted request changes. -/
theorem acceptRequest_cases {a a' : DramArb} (h : acceptRequest c a pkt bank up = some a') :
    (pkt.isRead = true ∧ a.nbrOutstandingReads bank + (a.responseQueue bank).length < c.limit ∧
      a' = (a.pushInBuf .read bank up pkt).recordRead bank up pkt) ∨
    (pkt.isRead = false ∧ (a.writeInBufs bank up).length < c.limit ∧
      a' = a.pushInBuf .write bank up pkt) := by
  cases hread : pkt.isRead with
  | true =>
    simp only [acceptRequest, hread, if_true] at h
    split at h
    · rename_i hroom
      exact .inl ⟨rfl, hroom, (Option.some.inj h).symm⟩
    · cases h
  | false =>
    simp only [acceptRequest, hread, Packet.isWrite_eq, Bool.not_false, Bool.false_eq_true,
      if_false, if_true] at h
    split at h
    · rename_i hroom
      exact .inr ⟨rfl, hroom, (Option.some.inj h).symm⟩
    · cases h

/-- Requests change neither the response queues nor the flags of the responses. -/
theorem Requested.responses {s s' : Core} (h : Requested c s s') :
    s'.arb.responseQueue = s.arb.responseQueue ∧ s'.arb.retryResp = s.arb.retryResp ∧
      s'.arb.sendResponseEvent = s.arb.sendResponseEvent := by
  cases h with
  | refuse => exact ⟨rfl, rfl, rfl⟩
  | accept hup h =>
    obtain ⟨-, -, rfl⟩ | ⟨-, -, rfl⟩ := acceptRequest_cases h
    · exact ⟨rfl, rfl, rfl⟩
    · exact ⟨rfl, rfl, rfl⟩

theorem requests_responses {s s' : Core} (h : ReflTransGen (Requested c) s s') :
    s'.arb.responseQueue = s.arb.responseQueue ∧ s'.arb.retryResp = s.arb.retryResp ∧
      s'.arb.sendResponseEvent = s.arb.sendResponseEvent := by
  induction h with
  | refl => exact ⟨rfl, rfl, rfl⟩
  | tail _ h ih =>
    obtain ⟨hqueue, hflags, hevent⟩ := h.responses
    exact ⟨hqueue.trans ih.1, hflags.trans ih.2.1, hevent.trans ih.2.2⟩

theorem recvTimingReqUp_requested (hup : up < c.numUpstreams) (w : World δ) :
    Requested c w.toCore (recvTimingReqUp c P pkt bank up w).2.toCore := by
  unfold recvTimingReqUp
  cases h : acceptRequest c w.arb pkt bank up with
  | none => exact .refuse hup h
  | some a =>
    have hcore := scheduleArbEvent_core (P := P) (w.setArb a)
    have hnote : ((scheduleArbEvent c P (w.setArb a)).note (.request bank up pkt true)).toCore =
        ⟨{ a with arbEvent := true }, .request bank up pkt true :: w.log⟩ := by
      simp only [World.note, hcore]
      rfl
    rw [hnote]
    exact .accept hup h

theorem Reaction.run_requests {ρ : Type} (r : Reaction c.numUpstreams δ ρ) (w : World δ) :
    ReflTransGen (Requested c) w.toCore (r.run c P w).2.toCore := by
  induction r generalizing w with
  | done result d => exact .refl
  | request bank up pkt d next ih =>
    exact .head (recvTimingReqUp_requested up.isLt { w with rest := d }) (ih _ _ _)

theorem moves_of_requests {s s' : Core} (h : ReflTransGen (Requested c) s s') : RespMoves c s s' :=
  h.lift id fun _ _ => .requested

/-! ## Arbitration -/

theorem arbitrateRequests_offers (kind : Kind) (bank : Bank) (ks : List Nat) (w : World δ) :
    ReflTransGen (Offered c bank) w.toCore (arbitrateRequests c P kind bank ks w).2.toCore := by
  induction ks generalizing w with
  | nil => exact .refl
  | cons k ks ih =>
    simp only [arbitrateRequests]
    split
    · exact ih w
    · rename_i pkt rest hhead
      split
      · rename_i htrue
        have hup : (w.arb.rrIdx kind bank + k) % c.numUpstreams < c.numUpstreams :=
          Nat.mod_lt _ c.numUpstreams_pos
        apply ReflTransGen.single
        simp only [World.note, World.setArb, htrue]
        exact .taken hup hhead
      · rename_i hfalse
        refine .head ?_ (ih _)
        simp only [World.note, Bool.not_eq_true] at hfalse ⊢
        rw [hfalse]
        exact .refused hhead

theorem arbitrateBank_offers (bank : Bank) (w : World δ) :
    ReflTransGen (Offered c bank) w.toCore (arbitrateBank c P bank w).2.toCore := by
  have hread := arbitrateRequests_offers (P := P) .read bank (List.range c.numUpstreams) w
  simp only [arbitrateBank]
  split
  · exact hread
  · exact hread.trans (arbitrateRequests_offers .write bank _ _)

/-- The loop of `arbitrate`. -/
def rounds (c : Config) (P : Peers c.numUpstreams δ) (w : World δ) : Round δ :=
  banks.foldl (arbitrateStep c P) ⟨false, false, w⟩

/-- After the loop only `arbEvent` may change. -/
theorem arbitrate_core (w : World δ) :
    (arbitrate c P w).toCore =
      ⟨{ (rounds c P w).world.arb with
          arbEvent := (rounds c P w).world.arb.arbEvent ||
            ((rounds c P w).hasPending || (rounds c P w).needResched) },
        (rounds c P w).world.log⟩ := by
  change (if ((rounds c P w).hasPending || (rounds c P w).needResched) = true then
    scheduleArbEvent c P (rounds c P w).world else (rounds c P w).world).toCore = _
  split
  · rename_i h
    rw [scheduleArbEvent_core, h, Bool.or_true]
  · rename_i h
    rw [Bool.not_eq_true] at h
    rw [h, Bool.or_false]

theorem arbitrate_moves (w : World δ) :
    ReflTransGen (ArbMove c) w.toCore (arbitrate c P w).toCore := by
  have hloop : ReflTransGen (ArbMove c) w.toCore (rounds c P w).world.toCore := by
    refine foldl_invariant
      (fun r : Round δ => ReflTransGen (ArbMove c) w.toCore r.world.toCore) ?_ .refl
    intro r bank _ h
    exact h.trans ((arbitrateBank_offers bank r.world).lift id fun _ _ => .offered)
  rw [arbitrate_core]
  exact .tail hloop .event

/-! ## Responses -/

/-- What happens inside `sendRetryReq`: the call, and then requests. -/
theorem sendRetryReq_requests (bank : Bank) (target : Nat) (w : World δ) :
    ReflTransGen (Requested c) (w.note (.retryReq bank target)).toCore
      (sendRetryReq c P bank target w).toCore :=
  Reaction.run_requests _ _

theorem sendRetryReq_moves (bank : Bank) (target : Nat) (w : World δ) :
    RespMoves c w.toCore (sendRetryReq c P bank target w).toCore :=
  .head .retried (moves_of_requests (sendRetryReq_requests bank target w))

theorem popFront_core (bank : Bank) (w : World δ) :
    (popFront c P bank w).toCore =
      ⟨{ w.arb.popResponse bank with
          sendResponseEvent :=
            w.arb.sendResponseEvent || !(w.arb.responseQueue bank).tail.isEmpty },
        w.log⟩ := by
  have hqueue : (w.arb.popResponse bank).responseQueue bank = (w.arb.responseQueue bank).tail := by
    simp [DramArb.popResponse]
  unfold popFront
  simp only [World.setArb, hqueue]
  cases (w.arb.responseQueue bank).tail.isEmpty with
  | true => simp [DramArb.popResponse]
  | false => simp [scheduleSendResponseEvent_core]

theorem retryAfter_moves (bank : Bank) (i target : Nat) (w : World δ) :
    RespMoves c w.toCore (retryAfter c P bank i target w).toCore := by
  unfold retryAfter
  split
  · exact .tail (sendRetryReq_moves bank target w) .cleared
  · exact .refl

/-- What happens inside `sendTimingResp`: requests, and then the answer. -/
theorem sendTimingResp_requests {answer : Bool}
    (h : sendTimingResp c P bank up pkt w = (answer, w')) :
    ∃ log, ReflTransGen (Requested c) w.toCore ⟨w'.arb, log⟩ ∧
      w'.log = .sendResp bank up pkt answer :: log := by
  have hrun := Reaction.run_requests (P := P) (P.sendTimingResp bank up pkt w.rest) w
  cases h
  exact ⟨_, hrun, rfl⟩

/-- The three ways through the loop body of `sendResponse`. -/
inductive Visit (c : Config) (P : Peers c.numUpstreams δ) (w : World δ) (bank : Bank) (i : Nat) :
    World δ → Prop
  | idle (h : w.arb.retryResp bank i = true ∨ w.arb.responseQueue bank = []) :
      Visit c P w bank i w
  | refused {pkt : Packet} {target : Nat} {rest : List (Packet × Nat)} {w' : World δ}
      (hopen : w.arb.retryResp bank i = false)
      (hfront : w.arb.responseQueue bank = (pkt, target) :: rest)
      (hanswer : sendTimingResp c P bank target pkt w = (false, w')) :
      Visit c P w bank i (w'.setArb (w'.arb.setRetryResp bank i true))
  | taken {pkt : Packet} {target : Nat} {rest : List (Packet × Nat)} {w' : World δ}
      (hopen : w.arb.retryResp bank i = false)
      (hfront : w.arb.responseQueue bank = (pkt, target) :: rest)
      (hanswer : sendTimingResp c P bank target pkt w = (true, w')) :
      Visit c P w bank i (retryAfter c P bank i target (popFront c P bank w'))

theorem sendResponseAt_visit (w : World δ) (bank : Bank) (i : Nat) :
    Visit c P w bank i (sendResponseAt c P w (bank, i)) := by
  cases hopen : w.arb.retryResp bank i with
  | true =>
    simp only [sendResponseAt, hopen, if_true]
    exact .idle (.inl hopen)
  | false =>
    cases hfront : w.arb.responseQueue bank with
    | nil =>
      simp only [sendResponseAt, hopen, hfront, Bool.false_eq_true, if_false]
      exact .idle (.inr hfront)
    | cons entry rest =>
      obtain ⟨pkt, target⟩ := entry
      simp only [sendResponseAt, hopen, hfront, Bool.false_eq_true, if_false]
      cases hanswer : sendTimingResp c P bank target pkt w with
      | mk answer w' =>
        cases answer with
        | true => exact .taken hopen hfront hanswer
        | false => exact .refused hopen hfront hanswer

/-- What an iteration does when its response is taken. -/
theorem Visit.eq_of_taken {i target : Nat} {rest : List (Packet × Nat)} {v : World δ}
    (h : Visit c P w bank i w') (hopen : w.arb.retryResp bank i = false)
    (hfront : w.arb.responseQueue bank = (pkt, target) :: rest)
    (hanswer : sendTimingResp c P bank target pkt w = (true, v)) :
    w' = retryAfter c P bank i target (popFront c P bank v) := by
  cases h with
  | idle h =>
    obtain hflag | hempty := h
    · exact absurd hflag (by simp [hopen])
    · exact absurd hempty (by simp [hfront])
  | refused hopen' hfront' hanswer' =>
    rw [hfront] at hfront'
    cases hfront'
    rw [hanswer] at hanswer'
    cases hanswer'
  | taken hopen' hfront' hanswer' =>
    rw [hfront] at hfront'
    cases hfront'
    rw [hanswer] at hanswer'
    cases hanswer'
    rfl

/-- What holds whenever the iteration of `(bank, i)` delivers a response, as a statement about the
front entry. -/
theorem forall_taken_iff {i : Nat} {Q : Nat → World δ → Prop} :
    (w.arb.retryResp bank i = false → ∀ pkt target rest w',
      w.arb.responseQueue bank = (pkt, target) :: rest →
      sendTimingResp c P bank target pkt w = (true, w') → Q target w') ↔
    (w.arb.retryResp bank i = false → ∀ entry ∈ (w.arb.responseQueue bank).head?,
      (sendTimingResp c P bank entry.2 entry.1 w).1 = true →
        Q entry.2 (sendTimingResp c P bank entry.2 entry.1 w).2) := by
  refine imp_congr_right fun _ => ?_
  constructor
  · intro h entry hentry hanswer
    obtain ⟨rest, hfront⟩ := List.head?_eq_some_iff.mp hentry
    exact h entry.1 entry.2 rest _ hfront (Prod.ext hanswer rfl)
  · intro h pkt target rest w' hfront hanswer
    have htaken := h (pkt, target) (by simp [hfront])
    simpa [hanswer] using htaken

theorem Visit.moves {i : Nat} (h : Visit c P w bank i w') :
    RespMoves c w.toCore w'.toCore := by
  cases h with
  | idle h => exact .refl
  | refused hopen hfront hanswer =>
    obtain ⟨log, hlog, hw⟩ := sendTimingResp_requests hanswer
    refine .tail (moves_of_requests hlog) ?_
    simp only [World.setArb, hw]
    exact .bounced
  | @taken pkt target rest v hopen hfront hanswer =>
    obtain ⟨log, hlog, hw⟩ := sendTimingResp_requests hanswer
    have hqueue : v.arb.responseQueue bank = (pkt, target) :: rest := by
      rw [← hfront, ← (requests_responses hlog).1]
    have hpop : RespMoves c ⟨v.arb, log⟩ (popFront c P bank v).toCore := by
      rw [popFront_core, hw]
      exact .tail (.single (.delivered hqueue)) .event
    exact ((moves_of_requests hlog).trans hpop).trans (retryAfter_moves bank i target _)

theorem mem_visits {i : Nat} : (bank, i) ∈ visits c ↔ i < c.numUpstreams := by
  simp [visits, banks]

theorem sendResponse_moves (w : World δ) :
    RespMoves c w.toCore (sendResponse c P w).toCore := by
  refine foldl_invariant (fun v : World δ => RespMoves c w.toCore v.toCore) ?_ .refl
  rintro v ⟨bank, i⟩ _ h
  exact h.trans (sendResponseAt_visit v bank i).moves

/-- What a property of the world needs to survive a pass of `sendResponse`. -/
structure PassClosed (c : Config) (P : Peers c.numUpstreams δ) (I : World δ → Prop) : Prop where
  sendTimingResp : ∀ w bank up pkt, I w → I (sendTimingResp c P bank up pkt w).2
  sendRetryReq : ∀ w bank up, I w → I (sendRetryReq c P bank up w)
  schedule : ∀ w, I w → I (scheduleSendResponseEvent c P w)
  popResponse : ∀ w bank, I w → I (w.setArb (w.arb.popResponse bank))
  setRetryReq : ∀ w bank up flag, I w → I (w.setArb (w.arb.setRetryReq bank up flag))
  setRetryResp : ∀ w bank up flag, I w → I (w.setArb (w.arb.setRetryResp bank up flag))

namespace PassClosed

variable {I : World δ → Prop}

theorem popFront (hI : PassClosed c P I) (bank : Bank) (h : I w) : I (popFront c P bank w) := by
  have hpop := hI.popResponse w bank h
  unfold Arbiter.popFront
  dsimp only
  split
  · exact hpop
  · exact hI.schedule _ hpop

theorem retryAfter (hI : PassClosed c P I) (bank : Bank) (i target : Nat) (h : I w) :
    I (retryAfter c P bank i target w) := by
  unfold Arbiter.retryAfter
  split
  · exact hI.setRetryReq _ bank i false (hI.sendRetryReq w bank target h)
  · exact h

theorem visit (hI : PassClosed c P I) {i : Nat} (hvisit : Visit c P w bank i w') (h : I w) :
    I w' := by
  cases hvisit with
  | idle => exact h
  | @refused pkt target rest v hopen hfront hanswer =>
    have hv := hI.sendTimingResp w bank target pkt h
    rw [hanswer] at hv
    exact hI.setRetryResp v bank i true hv
  | @taken pkt target rest v hopen hfront hanswer =>
    have hv := hI.sendTimingResp w bank target pkt h
    rw [hanswer] at hv
    exact hI.retryAfter bank i target (hI.popFront bank hv)

theorem pass (hI : PassClosed c P I) (h : I w) : I (sendResponse c P w) :=
  foldl_invariant I (fun v bi _ hv => hI.visit (sendResponseAt_visit v bi.1 bi.2) hv) h

end PassClosed

theorem moves_of_resp {s s' : Core} (h : RespMoves c s s') : Moves c s s' :=
  h.lift id fun _ _ => .resp

/-- What `recvTimingResp` does when no assert fails. -/
theorem recvTimingResp_cases (h : recvTimingResp c P pkt bank w = .ok w') :
    ∃ resPkt reads up ups, (w.arb.outstandingReads bank).get pkt.addr = resPkt :: reads ∧
      w.arb.nbrOutstandingReads bank ≠ 0 ∧
      (w.arb.outstandingUpstream bank).get pkt.addr = up :: ups ∧
      w' = accessAndRespond c P bank resPkt up
        ((w.setArb (w.arb.dropRecord bank pkt.addr)).note (.response bank pkt)) := by
  unfold recvTimingResp at h
  simp only at h
  split at h
  · cases h
  · cases h
  · rename_i resPkt reads hlook
    split at h
    · cases h
    · rename_i hcredit
      split at h
      · cases h
      · rename_i up ups hup
        refine ⟨resPkt, reads, up, ups, ?_, hcredit, hup, (Except.ok.inj h).symm⟩
        rw [QueueMap.get, hlook, Option.getD_some]

theorem recvTimingResp_moves (h : recvTimingResp c P pkt bank w = .ok w') :
    Moves c w.toCore w'.toCore := by
  obtain ⟨resPkt, reads, up, ups, hread, hcredit, hup, rfl⟩ := recvTimingResp_cases h
  unfold accessAndRespond
  rw [scheduleSendResponseEvent_core]
  exact .head (.response hread hcredit hup) (.single (.resp .event))

/-! ## Steps and runs -/

theorem step_arbitrate (h : step c P w .arbitrate = some w') :
    w.arb.arbEvent = true ∧ w' = arbitrate c P w.clearArbEvent := by
  simp only [step] at h
  split at h
  · rename_i hevent
    exact ⟨hevent, (Option.some.inj h).symm⟩
  · cases h

theorem step_sendResponse (h : step c P w .sendResponse = some w') :
    w.arb.sendResponseEvent = true ∧ w' = sendResponse c P w.clearSendResponseEvent := by
  simp only [step] at h
  split at h
  · rename_i hevent
    exact ⟨hevent, (Option.some.inj h).symm⟩
  · cases h

theorem step_response (h : step c P w (.response bank pkt) = some w') :
    recvTimingResp c P pkt bank w = .ok w' :=
  ok_of_toOption h

/-- A step is a sequence of moves. -/
theorem step_moves {action : Action c.numUpstreams δ} (h : step c P w action = some w') :
    Moves c w.toCore w'.toCore := by
  cases action with
  | request bank up pkt =>
    cases h
    exact .single (.resp (.requested (recvTimingReqUp_requested up.isLt w)))
  | arbitrate =>
    obtain ⟨-, rfl⟩ := step_arbitrate h
    have h : Moves c w.clearArbEvent.toCore (arbitrate c P w.clearArbEvent).toCore :=
      (arbitrate_moves w.clearArbEvent).lift id fun _ _ => .arb
    exact .head (.arb .event) h
  | sendResponse =>
    obtain ⟨-, rfl⟩ := step_sendResponse h
    have h := sendResponse_moves (P := P) w.clearSendResponseEvent
    exact moves_of_resp (.head .event h)
  | response bank pkt => exact recvTimingResp_moves (step_response h)
  | reqRetry bank =>
    cases h
    rw [handleReqRetry, scheduleArbEvent_core]
    exact .head .reqRetry (.single (.arb .event))
  | respRetry bank up =>
    cases h
    have h := sendResponse_moves (P := P) (w.clearRetryResp bank up)
    exact .head .respRetry (moves_of_resp h)
  | rest d =>
    cases h
    exact .refl

/-- What every single move keeps, a sequence of moves keeps. -/
theorem star_invariant {R : Core → Core → Prop} {I : Core → Prop} {s s' : Core}
    (hI : ∀ s s', R s s' → I s → I s') (h : ReflTransGen R s s') (h0 : I s) : I s' := by
  induction h with
  | refl => exact h0
  | tail _ h ih => exact hI _ _ h ih

theorem Move.log_suffix {s s' : Core} (h : Move c s s') : s.log <:+ s'.log := by
  cases h with
  | resp h =>
    cases h with
    | requested h =>
      cases h with
      | accept => exact List.suffix_cons _ _
      | refuse => exact List.suffix_cons _ _
    | delivered => exact List.suffix_cons _ _
    | bounced => exact List.suffix_cons _ _
    | retried => exact List.suffix_cons _ _
    | cleared => exact List.suffix_rfl
    | event => exact List.suffix_rfl
  | arb h =>
    cases h with
    | offered h =>
      cases h with
      | refused => exact List.suffix_cons _ _
      | taken => exact List.suffix_cons _ _
    | event => exact List.suffix_rfl
  | respRetry => exact List.suffix_cons _ _
  | reqRetry => exact List.suffix_cons _ _
  | response => exact List.suffix_cons _ _

/-- The log only grows. -/
theorem moves_log_suffix {s s' : Core} (h : Moves c s s') : s.log <:+ s'.log :=
  star_invariant (I := fun t => s.log <:+ t.log) (fun _ _ m hs => hs.trans m.log_suffix) h
    List.suffix_rfl

/-- The core of the world before anything has happened. -/
def Core.init : Core := ⟨DramArb.init, []⟩

/-- What holds initially and is kept by every move holds in every run, whatever the peers do. -/
theorem reach_invariant {I : Core → Prop} (h0 : I Core.init)
    (hI : ∀ s s', Move c s s' → I s → I s') {ok : World δ → Action c.numUpstreams δ → Prop} {d : δ}
    (h : Reach (Steps (step c P)) ok (World.init d) w) : I w.toCore :=
  h.invariant (fun v => I v.toCore) h0 fun _ _ _ _ hv _ hstep =>
    star_invariant hI (step_moves hstep) hv

end NetSim.Arbiter
