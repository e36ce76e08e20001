import NetSim.Buffer.Draining
import NetSim.Library.Along

/-!
# How many responses the buffer holds

`UpBuffer` counts the responses of a port in `bufferdata_num` next to the queue that holds them.
The counter is always the length of the queue. The limit `buf_size` is tested with `>` instead of
`>=`: a response that arrives when the port holds `buf_size` responses is still kept, so a port can
hold one more than the limit.
-/

namespace NetSim.Buffer

open Common Library Arbiter

/-- What the environment does, and calls of `send_data_2cal`, which is a public function. -/
inductive PublicAction
  | action (a : BufferAction)
  | sendData2cal

namespace Upstream

def publicStep (s : Upstream) : PublicAction → Option Upstream
  | .action a => step s a
  | .sendData2cal => some ⟨s.buffer.sendData2cal, s.log⟩

/-- The counters are the lengths of the queues, and these are at most `limit`. -/
def Counted (limit : Nat) (b : UpBuffer) : Prop :=
  ∀ port, b.bufferdataNum port = (b.bufferData port).length ∧ (b.bufferData port).length ≤ limit

/-- A response arrives only on a port that holds fewer than `buf_size` responses. -/
def HasRoom (s : Upstream) : PublicAction → Prop
  | .action (.response port _) => (s.buffer.bufferData port).length < bufSize
  | .action (.init _) | .action (.tick _) | .action .sendData | .action (.retryReq ..)
  | .sendData2cal => True

variable {s s' : Upstream} {b : UpBuffer} {limit : Nat} {port : PortId} {pkt : Packet}

/-! ## Responses -/

/-- A response is refused when the counter is over the limit, and then no data changes; otherwise it
is appended to the queue of its port. -/
theorem recvTimingResp_cases (b : UpBuffer) (port : PortId) (pkt : Packet) :
    (b.bufferdataNum port > bufSize ∧ (b.recvTimingResp port pkt).1 = false ∧
      (b.recvTimingResp port pkt).2.bufferData = b.bufferData ∧
      (b.recvTimingResp port pkt).2.bufferdataNum = b.bufferdataNum) ∨
    (b.bufferdataNum port ≤ bufSize ∧ (b.recvTimingResp port pkt).1 = true ∧
      (b.recvTimingResp port pkt).2.bufferData = (b.pushData port pkt).bufferData ∧
      (b.recvTimingResp port pkt).2.bufferdataNum = (b.pushData port pkt).bufferdataNum) := by
  unfold UpBuffer.recvTimingResp
  split
  · rename_i hfull
    exact Or.inl ⟨hfull, rfl, rfl, rfl⟩
  · rename_i hroom
    refine Or.inr ⟨Nat.not_lt.mp hroom, rfl, ?_⟩
    dsimp only
    split
    · exact ⟨rfl, rfl⟩
    · exact ⟨rfl, rfl⟩

theorem Counted.of_same {b' : UpBuffer} (h : Counted limit b) (hdata : b'.bufferData = b.bufferData)
    (hnum : b'.bufferdataNum = b.bufferdataNum) : Counted limit b' := by
  intro port
  rw [hdata, hnum]
  exact h port

/-- One more response fits if and only if the queue of the port is below the limit. -/
theorem Counted.pushData_iff (h : Counted limit b) (hlimit : limit < 2 ^ 32 - 1) :
    Counted limit (b.pushData port pkt) ↔ (b.bufferData port).length < limit := by
  constructor
  · intro hpush
    have hport := (hpush port).2
    simp only [UpBuffer.pushData, Function.update_self, List.length_append, List.length_cons,
      List.length_nil] at hport
    omega
  · intro hroom p
    by_cases hp : p = port
    · subst hp
      have hnum := (h p).1
      simp only [UpBuffer.pushData, Function.update_self, List.length_append, List.length_cons,
        List.length_nil, hnum]
      rw [Nat.mod_eq_of_lt (by omega)]
      omega
    · simpa [UpBuffer.pushData, hp] using h p

/-! ## The drain -/

theorem Counted.popData (h : Counted limit b) (hlimit : limit < 2 ^ 32 - 1) (port : PortId) :
    Counted limit (b.popData port) := by
  unfold UpBuffer.popData
  split
  · exact h
  · rename_i hdata
    intro p
    by_cases hp : p = port
    · subst hp
      obtain ⟨hnum, hle⟩ := h p
      have hpos : 0 < (b.bufferData p).length := by
        simpa [List.length_pos_iff] using hdata
      simp only [Function.update_self, List.length_tail, hnum]
      -- the counter is not zero, so adding `2 ^ 32 - 1` takes one away
      have hsum : (b.bufferData p).length + (2 ^ 32 - 1) =
          (b.bufferData p).length - 1 + 2 ^ 32 := by omega
      rw [hsum, Nat.add_mod_right, Nat.mod_eq_of_lt (by omega)]
      omega
    · simpa [hp] using h p

theorem Counted.sendData2cal (h : Counted limit b) (hlimit : limit < 2 ^ 32 - 1) :
    Counted limit b.sendData2cal := by
  have hloop : Counted limit (banks.foldl UpBuffer.popData b) :=
    foldl_invariant (Counted limit) (fun b' port _ hb => hb.popData hlimit port) h
  unfold UpBuffer.sendData2cal
  dsimp only
  split
  · exact hloop.of_same rfl rfl
  · exact hloop

/-! ## Steps and runs -/

/-- A step keeps the limit, unless it is a response that is kept on a full port. -/
theorem step_counted {action : PublicAction} (hstep : publicStep s action = some s')
    (hlimit : limit < 2 ^ 32 - 1) (hs : Counted limit s.buffer) :
    Counted limit s'.buffer ↔ ∀ port pkt, action = .action (.response port pkt) →
      s.buffer.bufferdataNum port ≤ bufSize → (s.buffer.bufferData port).length < limit := by
  have hother : (∀ port pkt, action ≠ .action (.response port pkt)) →
      Counted limit s'.buffer → (Counted limit s'.buffer ↔
        ∀ port pkt, action = .action (.response port pkt) →
          s.buffer.bufferdataNum port ≤ bufSize → (s.buffer.bufferData port).length < limit) :=
    fun hno h => iff_of_true h fun port pkt haction => absurd haction (hno port pkt)
  cases action with
  | sendData2cal =>
    cases hstep
    exact hother (by simp) (hs.sendData2cal hlimit)
  | action a =>
    cases a with
    | init answers =>
      cases hstep
      have hsame := answer_initFrom answers banks s.log s.buffer
      exact hother (by simp) (hs.of_same hsame.data hsame.num)
    | response port pkt =>
      cases hstep
      simp only [PublicAction.action.injEq, BufferAction.response.injEq, and_imp]
      rcases recvTimingResp_cases s.buffer port pkt with ⟨hfull, -, hdata, hnum⟩ |
        ⟨hroom, -, hdata, hnum⟩
      · refine iff_of_true (hs.of_same hdata hnum) ?_
        rintro p q rfl rfl hle
        omega
      · have hpush : Counted limit (s.buffer.recvTimingResp port pkt).2 ↔
            Counted limit (s.buffer.pushData port pkt) :=
          ⟨fun h => h.of_same hdata.symm hnum.symm, fun h => h.of_same hdata hnum⟩
        rw [hpush, hs.pushData_iff hlimit]
        constructor
        · rintro hlt p q rfl rfl -
          exact hlt
        · intro h
          exact h port pkt rfl rfl hroom
    | tick answers =>
      simp only [publicStep, step] at hstep
      split at hstep
      · cases hstep
        have hsame := answer_sendpktFrom answers banks s.log { s.buffer with tickEvent := false }
        exact hother (by simp) (hs.of_same hsame.data hsame.num)
      · cases hstep
    | sendData =>
      simp only [publicStep, step] at hstep
      split at hstep
      · cases hstep
        have hflag : Counted limit { s.buffer with sendDataRetryrespEvent := false } :=
          hs.of_same rfl rfl
        exact hother (by simp) (hflag.sendData2cal hlimit)
      · cases hstep
    | retryReq port accepted =>
      cases hstep
      exact hother (by simp) (hs.of_same rfl rfl)

theorem start_counted (name : Nat) (addrInit : Addr) (retryResp : PortId → Bool) (limit : Nat) :
    Counted limit (start name addrInit retryResp).buffer := fun _ => ⟨rfl, Nat.zero_le _⟩

/-- In every run the counters are exact and a port holds at most one response over the limit. -/
theorem reach_counted {name : Nat} {addrInit : Addr} {retryResp : PortId → Bool}
    (h : Reach (Steps publicStep) Free (start name addrInit retryResp) s) :
    Counted (bufSize + 1) s.buffer := by
  refine h.invariant (fun s => Counted (bufSize + 1) s.buffer) (start_counted _ _ _ _) ?_
  intro s action s' _ hs _ hstep
  refine (step_counted hstep (by decide) hs).mpr fun port pkt _ hle => ?_
  rw [(hs port).1] at hle
  exact Nat.lt_succ_of_le hle

/-- **Occupancy.** In every run the counters are the lengths of the queues, and a refused response
changes neither. The runs whose states all keep within `buf_size` on every port are exactly those in
which no response arrives on a port that holds `buf_size` responses already. -/
theorem occupancy_iff (name : Nat) (addrInit : Addr) (retryResp : PortId → Bool) :
    (Reach (Steps publicStep) Free (start name addrInit retryResp) s →
      (∀ port, s.buffer.bufferdataNum port = (s.buffer.bufferData port).length) ∧
      ∀ port pkt, (s.buffer.recvTimingResp port pkt).1 = false →
        (s.buffer.recvTimingResp port pkt).2.bufferData = s.buffer.bufferData ∧
        (s.buffer.recvTimingResp port pkt).2.bufferdataNum = s.buffer.bufferdataNum) ∧
    (Reach (Steps publicStep) HasRoom (start name addrInit retryResp) s ↔
      Reach (Steps publicStep) (fun s action => ∀ s', publicStep s action = some s' →
        Counted bufSize s'.buffer) (start name addrInit retryResp) s) ∧
    (Reach (Steps publicStep) HasRoom (start name addrInit retryResp) s →
      Counted bufSize s.buffer) := by
  refine ⟨fun h => ⟨fun port => (reach_counted h port).1, fun port pkt hrefused => ?_⟩, ?_⟩
  · rcases recvTimingResp_cases s.buffer port pkt with ⟨-, -, hsame⟩ | ⟨-, haccepted, -⟩
    · exact hsame
    · rw [haccepted] at hrefused
      cases hrefused
  · refine Reach.iff_of_keeps (fun s : Upstream => Counted bufSize s.buffer) (fun _ => True)
      (start_counted _ _ _ _) trivial ?_ (fun _ _ _ _ _ _ _ => trivial)
    intro s action s' hstep hs _
    rw [step_counted hstep (by decide) hs]
    cases action with
    | sendData2cal => simp [HasRoom]
    | action a =>
      cases a with
      | init | tick | sendData | retryReq => simp [HasRoom]
      | response port pkt =>
        have hle : s.buffer.bufferdataNum port ≤ bufSize := (hs port).1 ▸ (hs port).2
        constructor
        · intro h
          exact h port pkt rfl hle
        · intro hroom p q haction _
          cases haction
          exact hroom

/-- Four responses arrive on a port, and all of them are kept. -/
theorem occupancy_exceeded :
    ¬ ∀ s, Reach (Steps publicStep) Free (start 0 0 fun _ => false) s →
      Counted bufSize s.buffer := by
  intro h
  obtain ⟨s, hs, hp⟩ := Reach.of_run publicStep Free (start 0 0 fun _ => false)
    [.action (.init fun _ => true), .action (.response 0 ⟨0, 0, false⟩),
      .action (.response 0 ⟨1, 512, false⟩), .action (.response 0 ⟨2, 512, false⟩),
      .action (.response 0 ⟨3, 512, false⟩)]
    (fun s => s.buffer.bufferdataNum 0 = 4) (by decide +kernel)
  have hnum := of_decide_eq_true hp
  obtain ⟨hlength, hle⟩ := h s hs 0
  rw [← hlength, hnum] at hle
  exact absurd hle (by decide)

end Upstream

end NetSim.Buffer
