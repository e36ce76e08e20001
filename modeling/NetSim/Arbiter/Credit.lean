import NetSim.Arbiter.Moves

/-!
# Read credit

For `buf_size` at least zero the counter `nbrOutstandingReads` never wraps around: it is the number
of records, and together with the response queue it stays within `buf_size`.
-/

namespace NetSim.Arbiter

open Common Library

/-- The counter of a bank is the number of its records, and the credit is not exceeded. -/
structure Credit (c : Config) (s : Core) : Prop where
  count : ∀ bank, s.arb.nbrOutstandingReads bank = (s.arb.outstandingReads bank).total
  bound : ∀ bank, s.arb.nbrOutstandingReads bank + (s.arb.responseQueue bank).length ≤ c.limit

variable {c : Config} {s s' : Core} {bank : Bank} {up : Nat} {pkt : Packet}

theorem Config.limit_pos (hbuf : 1 ≤ c.bufSize) : 0 < c.limit := by
  have h := Config.limit_of_nonneg (c := c) (by omega)
  omega

theorem Config.limit_lt (hbuf : 0 ≤ c.bufSize) : c.limit < 2 ^ 31 := by
  have h := Config.limit_of_nonneg (c := c) (by omega)
  have hint := c.bufSize_int.2
  omega

theorem credit_init : Credit c Core.init where
  count := fun _ => rfl
  bound := fun _ => Nat.zero_le _

theorem Credit.frame (h : Credit c s)
    (hcount : s'.arb.nbrOutstandingReads = s.arb.nbrOutstandingReads)
    (hreads : s'.arb.outstandingReads = s.arb.outstandingReads)
    (hqueue : s'.arb.responseQueue = s.arb.responseQueue) : Credit c s' where
  count := by
    rw [hcount, hreads]
    exact h.count
  bound := by
    rw [hcount, hqueue]
    exact h.bound

theorem Credit.acceptRead {a : DramArb} {log log' : Log} (hbuf : 0 ≤ c.bufSize)
    (h : Credit c ⟨a, log⟩)
    (hroom : a.nbrOutstandingReads bank + (a.responseQueue bank).length < c.limit)
    (inBufs : Kind → Bank → Nat → List Packet) (arbEvent : Bool) :
    Credit c ⟨{ a.recordRead bank up pkt with inBufs := inBufs, arbEvent := arbEvent }, log'⟩ := by
  have hlimit := Config.limit_lt hbuf
  have hwrap : (a.nbrOutstandingReads bank + 1) % 2 ^ 32 = a.nbrOutstandingReads bank + 1 :=
    Nat.mod_eq_of_lt (by omega)
  constructor
  · intro b
    have hb := h.count b
    by_cases hbank : b = bank
    · subst hbank
      simp only [DramArb.recordRead, Function.update_self, QueueMap.total_push, hwrap] at hb ⊢
      omega
    · simpa [DramArb.recordRead, hbank] using hb
  · intro b
    have hb := h.bound b
    by_cases hbank : b = bank
    · subst hbank
      simp only [DramArb.recordRead, Function.update_self, hwrap] at hb ⊢
      omega
    · simpa [DramArb.recordRead, hbank] using hb

theorem Credit.response {a : DramArb} {log log' : Log} {resPkt : Packet} {reads : List Packet}
    (h : Credit c ⟨a, log⟩) (hread : (a.outstandingReads bank).get pkt.addr = resPkt :: reads)
    (hcredit : a.nbrOutstandingReads bank ≠ 0) :
    Credit c ⟨(a.dropRecord bank pkt.addr).pushResponse bank resPkt up, log'⟩ := by
  have htotal := QueueMap.total_pop (m := a.outstandingReads bank) (k := pkt.addr)
    (by simp [hread])
  constructor
  · intro b
    have hb := h.count b
    by_cases hbank : b = bank
    · subst hbank
      simp only [DramArb.dropRecord, DramArb.pushResponse, Function.update_self] at hb ⊢
      omega
    · simpa [DramArb.dropRecord, DramArb.pushResponse, hbank] using hb
  · intro b
    have hb := h.bound b
    by_cases hbank : b = bank
    · subst hbank
      simp only [DramArb.dropRecord, DramArb.pushResponse, Function.update_self,
        List.length_append, List.length_singleton] at hb ⊢
      omega
    · simpa [DramArb.dropRecord, DramArb.pushResponse, hbank] using hb

theorem Credit.deliver {a : DramArb} {log log' : Log} (h : Credit c ⟨a, log⟩) :
    Credit c ⟨a.popResponse bank, log'⟩ where
  count := h.count
  bound := by
    intro b
    have hb := h.bound b
    by_cases hbank : b = bank
    · subst hbank
      simp only [DramArb.popResponse, Function.update_self, List.length_tail] at hb ⊢
      omega
    · simpa [DramArb.popResponse, hbank] using hb

theorem Credit.requested (hbuf : 0 ≤ c.bufSize) (h : Credit c s) (hreq : Requested c s s') :
    Credit c s' := by
  cases hreq with
  | accept hup hacc =>
    obtain ⟨-, hroom, rfl⟩ | ⟨-, -, rfl⟩ := acceptRequest_cases hacc
    · exact h.acceptRead hbuf hroom _ true
    · exact h.frame rfl rfl rfl
  | refuse => exact h.frame rfl rfl rfl

theorem Credit.respMove (hbuf : 0 ≤ c.bufSize) (h : Credit c s) (hmove : RespMove c s s') :
    Credit c s' := by
  cases hmove with
  | requested hreq => exact h.requested hbuf hreq
  | delivered => exact h.deliver
  | bounced => exact h.frame rfl rfl rfl
  | retried => exact h.frame rfl rfl rfl
  | cleared => exact h.frame rfl rfl rfl
  | event => exact h.frame rfl rfl rfl

theorem Credit.arbMove (h : Credit c s) (hmove : ArbMove c s s') : Credit c s' := by
  cases hmove with
  | offered hoffer =>
    cases hoffer with
    | refused => exact h.frame rfl rfl rfl
    | taken => exact h.frame rfl rfl rfl
  | event => exact h.frame rfl rfl rfl

theorem Credit.move (hbuf : 0 ≤ c.bufSize) (h : Credit c s) (hmove : Move c s s') :
    Credit c s' := by
  cases hmove with
  | resp hmove => exact h.respMove hbuf hmove
  | arb hmove => exact h.arbMove hmove
  | response hread hcredit hup => exact h.response hread hcredit
  | respRetry => exact h.frame rfl rfl rfl
  | reqRetry => exact h.frame rfl rfl rfl

end NetSim.Arbiter
