import NetSim.Dram.Channel

/-!
# The handshakes of a memory object

On the request side a refusal sets `retryReq` and schedules `tickEvent`, and the tick takes the flag
back and sends the retry. On the response side `sendResponseEvent` is pending or a retry of the peer
is awaited only while there is a response, and never both. `Good` is the joint invariant: every
handler restores it, also when the peer makes requests from inside the handler.
-/

namespace NetSim.Dram

open Common Event Library

namespace Channel

/-! ## The history of the two handshakes -/

/-- A refused request or a retry, with the clock. -/
inductive ReqMark
  | refused (tick : Tick)
  | retried (tick : Tick)
deriving DecidableEq, Repr

def reqMark : DramEntry → Option ReqMark
  | .request _ false t => some (.refused t)
  | .retryReq t => some (.retried t)
  | _ => none

/-- The refusals and the retries, latest first. -/
def reqMarks (log : List DramEntry) : List ReqMark := log.filterMap reqMark

/-- Every refusal is followed by exactly one retry, at the next tick. -/
def Paired : List ReqMark → Prop
  | [] => True
  | .retried t' :: .refused t :: marks => t' = t + 1 ∧ Paired marks
  | _ => False

/-- The peer has refused a response and not yet retried. -/
def owesRespRetry : List DramEntry → Bool
  | .sendResp _ taken :: _ => !taken
  | .respRetry :: _ => false
  | _ :: log => owesRespRetry log
  | [] => false

/-! ## The invariant -/

/-- All refusals but the latest have had their retry; the retry of the latest, if it is still to
come, is due at the tick after it. -/
def Matched (s : Channel) : Prop :=
  if s.dram.retryReq then
    ∃ t marks, reqMarks s.log = .refused t :: marks ∧ Paired marks ∧ s.queue.when .tick = t + 1
  else Paired (reqMarks s.log)

/-- The joint invariant of the flags, the events and the response queue. -/
structure Good (s : Channel) : Prop where
  sound : Sound s.queue
  due : ∀ e, s.queue.scheduled e = true → s.queue.curTick ≤ s.queue.when e
  tick : s.dram.retryReq = s.queue.scheduled .tick
  sending : s.queue.scheduled .sendResponse = true →
    s.dram.responseQueue ≠ [] ∧ s.dram.retryResp = false
  waiting : s.dram.retryResp = true → s.dram.responseQueue ≠ []
  owed : owesRespRetry s.log = s.dram.retryResp
  matched : s.failed = false → s.Matched

/-- The response side is the same in both states. -/
structure SameResp (s s' : Channel) : Prop where
  queue : s'.dram.responseQueue = s.dram.responseQueue
  retryResp : s'.dram.retryResp = s.dram.retryResp
  scheduled : s'.queue.scheduled .sendResponse = s.queue.scheduled .sendResponse

variable {s s' : Channel}

/-- One request keeps the invariant and does not touch the response side. -/
theorem request_good (h : s.Good) (r : Packet × Bool) :
    (s.request r).Good ∧ SameResp s (s.request r) := by
  obtain ⟨pkt, accepts⟩ := r
  cases accepts with
  | true =>
    rw [request_accepted]
    obtain ⟨hqueue, hresp, hreq⟩ := s.dram.record_frame pkt
    refine ⟨⟨h.sound, h.due, ?_, ?_, ?_, ?_, ?_⟩, hqueue, hresp, rfl⟩
    · rw [hreq]
      exact h.tick
    · intro hs
      rw [hqueue, hresp]
      exact h.sending hs
    · intro hs
      rw [hresp] at hs
      rw [hqueue]
      exact h.waiting hs
    · rw [hresp]
      exact h.owed
    · intro hf
      have hm := h.matched hf
      unfold Matched at hm ⊢
      rw [hreq]
      exact hm
  | false =>
    obtain ⟨q, heq, hsound, htick, hold, hnew⟩ := request_refused h.sound pkt
    rw [heq]
    cases hs : s.queue.scheduled .tick with
    | true =>
      -- the assert of `schedule` fails
      rw [hold hs]
      refine ⟨⟨h.sound, h.due, ?_, h.sending, h.waiting, h.owed, ?_⟩, rfl, rfl, rfl⟩
      · exact hs.symm
      · intro hf
        simp at hf
    | false =>
      obtain ⟨hflags, hwhen⟩ := hnew hs
      have hresp : q.scheduled .sendResponse = s.queue.scheduled .sendResponse := by
        simp [hflags]
      refine ⟨⟨hsound, ?_, ?_, ?_, h.waiting, h.owed, ?_⟩, rfl, rfl, hresp⟩
      · intro e he
        simp only [htick, hwhen]
        cases e with
        | tick =>
          rw [Function.update_self]
          exact Nat.le_succ _
        | sendResponse =>
          rw [Function.update_of_ne (by simp)]
          exact h.due _ (hresp ▸ he)
      · simp [hflags, DRAMsim3.setRetryReq]
      · intro he
        exact h.sending (hresp ▸ he)
      · intro hf
        have hm := h.matched (by simpa [hs] using hf)
        unfold Matched at hm ⊢
        rw [h.tick, hs] at hm
        exact ⟨s.queue.curTick, reqMarks s.log, rfl, hm, by simp [hwhen]⟩

theorem SameResp.refl (s : Channel) : SameResp s s := ⟨rfl, rfl, rfl⟩

theorem SameResp.trans {s'' : Channel} (h : SameResp s s') (h' : SameResp s' s'') :
    SameResp s s'' :=
  ⟨h'.queue.trans h.queue, h'.retryResp.trans h.retryResp, h'.scheduled.trans h.scheduled⟩

theorem requests_good (h : s.Good) (rs : List (Packet × Bool)) :
    (s.requests rs).Good ∧ SameResp s (s.requests rs) := by
  induction rs generalizing s with
  | nil => exact ⟨h, .refl s⟩
  | cons r rs ih =>
    obtain ⟨hgood, hsame⟩ := request_good h r
    obtain ⟨hgood', hsame'⟩ := ih hgood
    exact ⟨hgood', hsame.trans hsame'⟩

/-- A response is answered while neither `sendResponseEvent` nor a retry is pending. -/
theorem answered_good {pkt : Packet} {rest : List Packet} (h : s.Good)
    (hqueue : s.dram.responseQueue = pkt :: rest) (hretry : s.dram.retryResp = false)
    (hevent : s.queue.scheduled .sendResponse = false) (rs : List (Packet × Bool))
    (taken : Bool) :
    (answered rs taken pkt s).Good ∧
      (answered rs taken pkt s).dram.responseQueue = (if taken then rest else pkt :: rest) ∧
      (answered rs taken pkt s).dram.retryResp = !taken ∧
      (answered rs taken pkt s).queue.scheduled .sendResponse = false := by
  obtain ⟨hgood, hsame⟩ := requests_good h rs
  have hqueue' : (s.requests rs).dram.responseQueue = pkt :: rest := hsame.queue.trans hqueue
  have hretry' : (s.requests rs).dram.retryResp = false := hsame.retryResp.trans hretry
  have hevent' : (s.requests rs).queue.scheduled .sendResponse = false :=
    hsame.scheduled.trans hevent
  cases taken with
  | true =>
    refine ⟨⟨hgood.sound, hgood.due, hgood.tick, ?_, ?_, hretry'.symm, hgood.matched⟩, ?_,
      hretry', hevent'⟩
    · intro he
      exact absurd he (by simp [answered, note, hevent'])
    · intro he
      exact absurd he (by simp [answered, note, DRAMsim3.popResponse, hretry'])
    · simp [answered, note, DRAMsim3.popResponse, hqueue']
  | false =>
    refine ⟨⟨hgood.sound, hgood.due, hgood.tick, ?_, ?_, rfl, hgood.matched⟩, ?_, rfl, hevent'⟩
    · intro he
      exact absurd he (by simp [answered, note, hevent'])
    · intro _
      simp [answered, note, DRAMsim3.setRetryResp, hqueue']
    · simp [answered, note, DRAMsim3.setRetryResp, hqueue']

/-! ## Steps -/

/-- Taking the head keeps what is known of the other event. -/
theorem due_takeHead (h : s.Good) {e : DramEvent} {q : EventQueue DramEvent}
    (htake : s.queue.takeHead = .ok (e, q)) :
    ∀ x, q.scheduled x = true → q.curTick ≤ q.when x := by
  obtain ⟨-, -, hflags, hwhen, htick, hmin⟩ := h.sound.takeHead htake
  intro x hx
  rw [htick, hwhen]
  apply hmin
  rw [hflags] at hx
  by_cases hxe : x = e
  · simp [hxe] at hx
  · simpa [hxe] using hx

theorem retryReq_of_tick {q : EventQueue DramEvent} (h : s.Good)
    (htake : s.queue.takeHead = .ok (.tick, q)) : s.dram.retryReq = true := by
  rw [h.tick]
  exact (h.sound.takeHead htake).2.1

/-- `tickEvent` is serviced. -/
theorem tick_good {q : EventQueue DramEvent} (h : s.Good)
    (htake : s.queue.takeHead = .ok (.tick, q)) (hretry : s.dram.retryReq = true)
    (rs : List (Packet × Bool)) :
    (sendRetryReq rs { s with queue := q, dram := s.dram.setRetryReq false }).Good ∧
      SameResp s (sendRetryReq rs { s with queue := q, dram := s.dram.setRetryReq false }) := by
  obtain ⟨hsound, -, hflags, hwhen, htick, -⟩ := h.sound.takeHead htake
  have hresp : q.scheduled .sendResponse = s.queue.scheduled .sendResponse := by simp [hflags]
  let s1 : Channel := { s with queue := q, dram := s.dram.setRetryReq false }
  have hgood : (note (.retryReq q.curTick) s1).Good := by
    refine ⟨hsound, due_takeHead h htake, ?_, ?_, h.waiting, h.owed, ?_⟩
    · simp [note, s1, DRAMsim3.setRetryReq, hflags]
    · intro he
      exact h.sending (hresp ▸ he)
    · -- the retry of the refusal that scheduled the event, which was due at this tick
      intro hf
      have hm := h.matched hf
      unfold Matched at hm
      rw [if_pos hretry] at hm
      obtain ⟨t, marks, hmarks, hpaired, hdue⟩ := hm
      have hnow : q.curTick = t + 1 := htick.trans hdue
      have hlog : reqMarks (.retryReq q.curTick :: s.log) =
          .retried (t + 1) :: .refused t :: marks := by
        rw [hnow, ← hmarks]
        rfl
      show Paired (reqMarks (.retryReq q.curTick :: s.log))
      rw [hlog]
      exact ⟨rfl, hpaired⟩
  obtain ⟨hdone, hsame⟩ := requests_good hgood rs
  have htaken : SameResp s (note (.retryReq q.curTick) s1) := ⟨rfl, rfl, hresp⟩
  exact ⟨hdone, htaken.trans hsame⟩

/-- `sendResponseEvent` is serviced. -/
theorem send_good {pkt : Packet} {rest : List Packet} {q : EventQueue DramEvent} (h : s.Good)
    (htake : s.queue.takeHead = .ok (.sendResponse, q)) (hretry : s.dram.retryResp = false)
    (hqueue : s.dram.responseQueue = pkt :: rest) (rs : List (Packet × Bool)) (taken : Bool) :
    (answered rs taken pkt { s with queue := q }).Good ∧
      (answered rs taken pkt { s with queue := q }).dram.responseQueue =
        (if taken then rest else pkt :: rest) ∧
      (answered rs taken pkt { s with queue := q }).dram.retryResp = !taken ∧
      (answered rs taken pkt { s with queue := q }).queue.scheduled .sendResponse = false := by
  obtain ⟨hsound, -, hflags, hwhen, -⟩ := h.sound.takeHead htake
  have hevent : q.scheduled .sendResponse = false := by simp [hflags]
  refine answered_good (s := { s with queue := q })
    ⟨hsound, due_takeHead h htake, ?_, ?_, h.waiting, h.owed, ?_⟩ hqueue hretry hevent rs taken
  · change s.dram.retryReq = q.scheduled .tick
    rw [h.tick, hflags]
    simp
  · intro he
    simp [hevent] at he
  · intro hf
    have hm := h.matched hf
    unfold Matched at hm ⊢
    rwa [← hwhen] at hm

/-- `recvRespRetry` is called. -/
theorem retry_good {pkt : Packet} {rest : List Packet} (h : s.Good)
    (hretry : s.dram.retryResp = true) (hqueue : s.dram.responseQueue = pkt :: rest)
    (rs : List (Packet × Bool)) (taken : Bool) :
    let s1 := note .respRetry { s with dram := s.dram.setRetryResp false }
    (answered rs taken pkt s1).Good ∧
      (answered rs taken pkt s1).dram.responseQueue = (if taken then rest else pkt :: rest) ∧
      (answered rs taken pkt s1).dram.retryResp = !taken ∧
      (answered rs taken pkt s1).queue.scheduled .sendResponse = false := by
  have hevent : s.queue.scheduled .sendResponse = false := by
    rw [Bool.eq_false_iff]
    intro he
    rw [(h.sending he).2] at hretry
    cases hretry
  refine answered_good (s := note .respRetry { s with dram := s.dram.setRetryResp false })
    ⟨h.sound, h.due, h.tick, ?_, ?_, rfl, h.matched⟩ hqueue rfl hevent rs taken
  · intro he
    simp [note, hevent] at he
  · intro he
    cases he

/-- A completed read keeps the invariant, and its response has a step pending that sends it. -/
theorem read_good (h : s.Good) (addr : Addr) (pkt : Packet) :
    (note (.complete addr false)
      (accessAndRespond host pkt { s with dram := s.dram.dropRead addr })).Good ∧
    ((accessAndRespond host pkt { s with dram := s.dram.dropRead addr }).queue.scheduled
        .sendResponse = true ∨
      (accessAndRespond host pkt { s with dram := s.dram.dropRead addr }).dram.retryResp =
        true) := by
  let s1 : Channel := { s with dram := s.dram.dropRead addr }
  obtain ⟨q, heq, hsound, htick, hold, hnew⟩ := accessAndRespond_spec (s := s1) h.sound pkt
  rw [heq]
  have hne : (s1.dram.pushResponse pkt).responseQueue ≠ [] := by simp [DRAMsim3.pushResponse]
  cases hretry : s.dram.retryResp with
  | true =>
    rw [hold (Or.inl hretry)]
    refine ⟨⟨h.sound, h.due, h.tick, ?_, fun _ => hne, h.owed, h.matched⟩, Or.inr hretry⟩
    intro he
    exact ⟨hne, (h.sending he).2⟩
  | false =>
    cases hevent : s.queue.scheduled .sendResponse with
    | true =>
      rw [hold (Or.inr hevent)]
      exact ⟨⟨h.sound, h.due, h.tick, fun _ => ⟨hne, hretry⟩, fun _ => hne, h.owed, h.matched⟩,
        Or.inl hevent⟩
    | false =>
      obtain ⟨hflags, hwhen⟩ := hnew hretry hevent
      have hself : q.scheduled .sendResponse = true := by simp [hflags]
      have hother : q.scheduled .tick = s.queue.scheduled .tick := by simp [hflags, s1]
      have hwhenTick : q.when .tick = s.queue.when .tick := by simp [hwhen, s1]
      refine ⟨⟨hsound, ?_, ?_, fun _ => ⟨hne, hretry⟩, fun _ => hne, h.owed, ?_⟩, Or.inl hself⟩
      · intro e he
        change q.curTick ≤ q.when e
        rw [htick]
        cases e with
        | tick =>
          rw [hwhenTick]
          exact h.due _ (hother ▸ he)
        | sendResponse =>
          rw [hwhen, Function.update_self]
          exact Nat.le_succ _
      · exact h.tick.trans hother.symm
      · intro hf
        have hm := h.matched hf
        unfold Matched at hm ⊢
        change if s.dram.retryReq = true then ∃ t marks, reqMarks s.log = .refused t :: marks ∧
          Paired marks ∧ q.when .tick = t + 1 else Paired (reqMarks s.log)
        rwa [hwhenTick]

/-- Every step keeps the invariant. -/
theorem does_good {action : DramAction} (h : s.Good) (hdoes : Does s action s') : s'.Good := by
  cases hdoes with
  | request pkt accepts => exact (request_good h (pkt, accepts)).1
  | @read addr pkt rest hlook hcredit => exact (read_good h addr pkt).1
  | write hlook hcredit => exact ⟨h.sound, h.due, h.tick, h.sending, h.waiting, h.owed, h.matched⟩
  | @tick rs taken q htake hretry => exact (tick_good h htake hretry rs).1
  | @idleTick rs taken q htake hretry => exact absurd (retryReq_of_tick h htake) (by simp [hretry])
  | @send rs taken q pkt rest htake hretry hqueue =>
    exact (send_good h htake hretry hqueue rs taken).1
  | @retry rs taken pkt rest hretry hqueue => exact (retry_good h hretry hqueue rs taken).1
  | @advance t hle hhead =>
    exact ⟨h.sound.setCurTick t, fun e he => h.sound.le_when_of_head hhead he, h.tick, h.sending,
      h.waiting, h.owed, h.matched⟩

theorem init_good : init.Good where
  sound := .init _
  due := by
    intro e he
    cases he
  tick := rfl
  sending := by
    intro he
    cases he
  waiting := by
    intro he
    cases he
  owed := rfl
  matched := fun _ => trivial

/-- The peer retries only when it has refused a response and not yet retried. -/
def LegalRetry (s : Channel) : DramAction → Prop
  | .respRetry _ _ => owesRespRetry s.log = true
  | _ => True

instance (s : Channel) (action : DramAction) : Decidable (LegalRetry s action) :=
  match action with
  | .respRetry _ _ => inferInstanceAs (Decidable (_ = true))
  | .request _ _ | .complete _ _ | .serviceOne _ _ | .advance _ => .isTrue trivial

theorem reach_good {ok : Channel → DramAction → Prop} (h : Reach (Steps step) ok init s) :
    s.Good :=
  h.invariant Good init_good fun _ _ _ _ hs _ hstep => does_good hs (step_does hstep).2

/-- The asserts of `sendResponse` hold when there is a response and no retry is awaited. -/
theorem sendResponse_returns {pkt : Packet} {rest : List Packet}
    (hretry : s.dram.retryResp = false) (hqueue : s.dram.responseQueue = pkt :: rest)
    (rs : List (Packet × Bool)) (taken : Bool) :
    ∃ s', sendResponse host (sendTimingResp rs taken) s = .ok s' := by
  cases taken with
  | true => exact ⟨_, by simp only [sendResponse, host_dram, hretry, hqueue]; rfl⟩
  | false => exact ⟨_, by simp only [sendResponse, host_dram, hretry, hqueue]; rfl⟩

/-- **The handshakes.** In every state of every run that has not aborted: `retryReq` is set exactly
when `tickEvent` is pending, and every refusal is followed by exactly one `sendRetryReq`, at the
next tick, or is the latest and has `tickEvent` pending for that tick; `sendResponseEvent` is
pending only while there is a response and no retry of the peer is awaited, and a retry is awaited
only while there is a response and `sendResponseEvent` is not pending. So the asserts of
`sendResponse` and `recvRespRetry` hold: servicing the head returns, and a retry that the peer owes
returns. -/
theorem dram_handshake (h : Reach (Steps step) LegalRetry init s) (hrun : s.failed = false) :
    (s.dram.retryReq = true ↔ s.queue.scheduled .tick = true) ∧
      (s.dram.retryReq = false → Paired (reqMarks s.log)) ∧
      (s.dram.retryReq = true → ∃ t marks, reqMarks s.log = .refused t :: marks ∧ Paired marks ∧
        s.queue.when .tick = t + 1 ∧ s.queue.curTick ≤ t + 1) ∧
      (s.queue.scheduled .sendResponse = true →
        s.dram.responseQueue ≠ [] ∧ s.dram.retryResp = false) ∧
      (s.dram.retryResp = true →
        s.dram.responseQueue ≠ [] ∧ s.queue.scheduled .sendResponse = false) ∧
      (∀ rs taken e q, s.queue.takeHead = .ok (e, q) →
        ∃ s', process rs taken { s with queue := q } e = .ok s') ∧
      ∀ rs taken, LegalRetry s (.respRetry rs taken) → ∃ s', s.respRetry rs taken = .ok s' := by
  have hg := reach_good h
  have hm := hg.matched hrun
  unfold Matched at hm
  refine ⟨by rw [hg.tick], fun hreq => by simpa [hreq] using hm, fun hreq => ?_, hg.sending,
    fun hresp => ⟨hg.waiting hresp, ?_⟩, ?_, ?_⟩
  · rw [if_pos hreq] at hm
    obtain ⟨t, marks, hmarks, hpaired, hdue⟩ := hm
    exact ⟨t, marks, hmarks, hpaired, hdue, hdue ▸ hg.due .tick (hg.tick ▸ hreq)⟩
  · rw [Bool.eq_false_iff]
    intro he
    rw [(hg.sending he).2] at hresp
    cases hresp
  · intro rs taken e q htake
    cases e with
    | tick => exact ⟨_, rfl⟩
    | sendResponse =>
      obtain ⟨hne, hretry⟩ := hg.sending (hg.sound.takeHead htake).2.1
      obtain ⟨pkt, rest, hqueue⟩ := List.exists_cons_of_ne_nil hne
      exact sendResponse_returns (s := { s with queue := q }) hretry hqueue rs taken
  · intro rs taken hlegal
    have hretry : s.dram.retryResp = true := hg.owed ▸ hlegal
    obtain ⟨pkt, rest, hqueue⟩ := List.exists_cons_of_ne_nil (hg.waiting hretry)
    obtain ⟨s', hs'⟩ := sendResponse_returns
      (s := note .respRetry { s with dram := s.dram.setRetryResp false }) rfl hqueue rs taken
    refine ⟨s', ?_⟩
    unfold respRetry recvRespRetry
    rw [if_pos (show (host.dram (s.note .respRetry)).retryResp = true from hretry)]
    exact hs'

/-- A refused read is retried at the next tick, and is refused again from inside the retry. -/
theorem dram_handshake_refused_twice :
    ∃ s, Reach (Steps step) LegalRetry init s ∧ s.failed = false ∧
      reqMarks s.log = [.refused 1, .retried 1, .refused 0] ∧
      ∃ t marks, reqMarks s.log = .refused t :: marks ∧ Paired marks ∧
        s.queue.when .tick = t + 1 ∧ s.queue.curTick ≤ t + 1 := by
  obtain ⟨s, hs, hp⟩ := Reach.of_run step LegalRetry init
    [.request ⟨0, 0, false⟩ false, .serviceOne [(⟨0, 0, false⟩, false)] true]
    (fun s => s.failed = false ∧ s.dram.retryReq = true ∧
      reqMarks s.log = [.refused 1, .retried 1, .refused 0]) (by decide +kernel)
  obtain ⟨hrun, hreq, hmarks⟩ := of_decide_eq_true hp
  exact ⟨s, hs, hrun, hmarks, (dram_handshake hs hrun).2.2.1 hreq⟩

/-! ## Stranded responses -/

/-- A response has a step pending that will send it. -/
def NotStranded (s : Channel) : Prop :=
  s.dram.responseQueue ≠ [] →
    s.queue.scheduled .sendResponse = true ∨ s.dram.retryResp = true

/-- A response that the peer takes is the only one. -/
def TakesLast (s : Channel) : DramAction → Prop
  | .serviceOne _ taken =>
    s.queue.head = some .sendResponse → taken = true → s.dram.responseQueue.length = 1
  | .respRetry _ taken => taken = true → s.dram.responseQueue.length = 1
  | _ => True

theorem SameResp.notStranded_iff (h : SameResp s s') : NotStranded s' ↔ NotStranded s := by
  unfold NotStranded
  rw [h.queue, h.retryResp, h.scheduled]

/-- After an answered response nothing is pending, so nothing may be left unless it was refused. -/
theorem notStranded_answered_iff {pkt : Packet} {rest : List Packet} {taken : Bool}
    (hold : s.dram.responseQueue = pkt :: rest)
    (hqueue : s'.dram.responseQueue = if taken then rest else pkt :: rest)
    (hretry : s'.dram.retryResp = !taken)
    (hevent : s'.queue.scheduled .sendResponse = false) :
    NotStranded s' ↔ (taken = true → s.dram.responseQueue.length = 1) := by
  unfold NotStranded
  rw [hqueue, hretry, hevent, hold]
  cases taken <;> simp

/-- A step leaves no response stranded exactly when it meets the condition. -/
theorem does_notStranded_iff {action : DramAction} (hg : s.Good) (hs : s.NotStranded)
    (hdoes : Does s action s') : s'.NotStranded ↔ TakesLast s action := by
  cases hdoes with
  | request pkt accepts =>
    exact iff_of_true ((request_good hg (pkt, accepts)).2.notStranded_iff.mpr hs) trivial
  | @read addr pkt rest hlook hcredit =>
    exact iff_of_true (fun _ => (read_good hg addr pkt).2) trivial
  | write hlook hcredit => exact iff_of_true hs trivial
  | @tick rs taken q htake hretry =>
    refine iff_of_true ((tick_good hg htake hretry rs).2.notStranded_iff.mpr hs) fun hhead => ?_
    rw [(takeHead_head htake).1] at hhead
    cases hhead
  | @idleTick rs taken q htake hretry => exact absurd (retryReq_of_tick hg htake) (by simp [hretry])
  | @send rs taken q pkt rest htake hretry hqueue =>
    obtain ⟨-, hq, hr, he⟩ := send_good hg htake hretry hqueue rs taken
    rw [notStranded_answered_iff hqueue hq hr he]
    simp [TakesLast, (takeHead_head htake).1]
  | @retry rs taken pkt rest hretry hqueue =>
    obtain ⟨-, hq, hr, he⟩ := retry_good hg hretry hqueue rs taken
    exact notStranded_answered_iff hqueue hq hr he
  | advance hle hhead => exact iff_of_true hs trivial

/-- The runs in which every completed read has a step pending that sends it are exactly the runs in
which every response that the peer takes is the only one in the queue. -/
theorem response_not_stranded_iff :
    (Reach (Steps step) TakesLast init s ↔
      Reach (Steps step) (fun s action => ∀ s', step s action = some s' → NotStranded s') init s) ∧
    (Reach (Steps step) TakesLast init s → NotStranded s) :=
  Reach.iff_of_keeps NotStranded Good (fun h => absurd rfl h) init_good
    (fun _ _ _ hstep hs hg => does_notStranded_iff hg hs (step_does hstep).2)
    (fun _ _ _ hstep _ hg _ => does_good hg (step_does hstep).2)

/-- Two reads complete in one tick. The event sends the first response, and nothing is pending
that would send the second. -/
theorem response_stranded :
    ¬ ∀ s, Reach (Steps step) Free init s → NotStranded s := by
  intro h
  obtain ⟨s, hs, hp⟩ := Reach.of_run step Free init
    [.request ⟨0, 0, false⟩ true, .request ⟨1, 64, false⟩ true, .complete 0 false,
      .complete 64 false, .serviceOne [] true]
    (fun s => s.dram.responseQueue = [⟨1, 64, false⟩] ∧ s.queue.scheduled .sendResponse = false ∧
      s.dram.retryResp = false) (by decide +kernel)
  obtain ⟨hqueue, hevent, hretry⟩ := of_decide_eq_true hp
  rcases h s hs (by simp [hqueue]) with he | he
  · rw [hevent] at he
    cases he
  · rw [hretry] at he
    cases he

end Channel

end NetSim.Dram
