import Mathlib.Algebra.BigOperators.Group.Finset.Basic
import Mathlib.Algebra.Order.BigOperators.Group.Finset
import NetSim.Arbiter.Arbitration

/-!
# Requests that wait for a round

A buffered request needs a scheduled `arbEvent`. `arbitrate` reschedules itself when some bank
sent nothing or when `has_pending` is set, but `has_pending` is overwritten by every bank, so at
the end it speaks of the last bank only. `SafeRound` is exactly when that does no harm.
-/

namespace NetSim.Arbiter

open Common Library Relation

variable {δ : Type} (c : Config) (P : Peers c.numUpstreams δ)

/-- The number of requests that are buffered on a bank. -/
def buffered (a : DramArb) (bank : Bank) : Nat :=
  ∑ up ∈ Finset.range c.numUpstreams,
    ((a.readInBufs bank up).length + (a.writeInBufs bank up).length)

/-- A buffered request has a scheduled round. -/
def NotStranded (s : Core) : Prop :=
  ∀ bank up, up < c.numUpstreams →
    (s.arb.readInBufs bank up ≠ [] ∨ s.arb.writeInBufs bank up ≠ []) → s.arb.arbEvent = true

/-- The downstream of `bank` takes one of the requests that are offered to it. -/
def Taken (r : Round δ) (bank : Bank) : Prop :=
  (takenHead c P bank (offers c r.world.arb bank) r.world.rest).isSome = true

/-- Every downstream takes a request in the round that starts in `w`. -/
def AllTake (w : World δ) : Prop :=
  Along (arbitrateStep c P) (Taken c P) banks ⟨false, false, w⟩

/-- The last bank of a round. -/
def lastBank : Bank := 7

/-- What a step needs: when every downstream takes a request in a round, the last bank had two
buffered requests, or no bank had more than one. -/
def SafeRound (w : World δ) : Action c.numUpstreams δ → Prop
  | .arbitrate => AllTake c P w.clearArbEvent →
      2 ≤ buffered c w.arb lastBank ∨ ∀ bank, buffered c w.arb bank ≤ 1
  | _ => True

variable {c P} {s s' : Core} {w w' : World δ} {bank : Bank}

/-! ## Counting buffered requests -/

theorem buffered_eq_zero_iff {a : DramArb} :
    buffered c a bank = 0 ↔
      ∀ up, up < c.numUpstreams → a.readInBufs bank up = [] ∧ a.writeInBufs bank up = [] := by
  simp only [buffered, Finset.sum_eq_zero_iff, Finset.mem_range, Nat.add_eq_zero_iff,
    List.length_eq_zero_iff]

theorem notStranded_iff :
    NotStranded c s ↔ s.arb.arbEvent = true ∨ ∀ bank, buffered c s.arb bank = 0 := by
  constructor
  · intro h
    by_cases hevent : s.arb.arbEvent = true
    · exact .inl hevent
    · refine .inr fun bank => buffered_eq_zero_iff.mpr fun up hup => ?_
      have hempty := fun hne => hevent (h bank up hup hne)
      tauto
  · rintro (hevent | hempty) bank up hup hne
    · exact hevent
    · obtain ⟨hread, hwrite⟩ := buffered_eq_zero_iff.mp (hempty bank) up hup
      exact absurd hne (by simp [hread, hwrite])

theorem checkPendingRequests_iff {a : DramArb} :
    checkPendingRequests c a bank = true ↔ 0 < buffered c a bank := by
  rw [Nat.pos_iff_ne_zero, ne_eq, buffered_eq_zero_iff]
  simp only [checkPendingRequests, List.any_eq_true, List.mem_range, Bool.or_eq_true,
    Bool.not_eq_true', List.isEmpty_eq_false_iff, not_forall]
  constructor
  · rintro ⟨up, hup, hne⟩
    exact ⟨up, hup, by tauto⟩
  · rintro ⟨up, hup, hne⟩
    exact ⟨up, hup, by tauto⟩

/-- One buffer of `bank` loses its head. -/
theorem buffered_popInBuf {a : DramArb} {kind : Kind} {up : Nat} {pkt : Packet}
    {rest : List Packet} (hup : up < c.numUpstreams)
    (hhead : a.inBufs kind bank up = pkt :: rest) :
    buffered c (a.popInBuf c kind bank up) bank + 1 = buffered c a bank := by
  refine (sum_eq_add_of_single (Finset.mem_range.mpr hup) ?_ fun u hu => ?_).symm
  · cases kind with
    | read =>
      simp [DramArb.readInBufs, DramArb.writeInBufs, DramArb.popInBuf_inBufs, hhead]
      omega
    | write =>
      simp [DramArb.readInBufs, DramArb.writeInBufs, DramArb.popInBuf_inBufs, hhead]
      omega
  · simp [DramArb.readInBufs, DramArb.writeInBufs, DramArb.popInBuf_inBufs, hu]

theorem buffered_popInBuf_of_ne {a : DramArb} {kind : Kind} {up : Nat} {b : Bank}
    (hb : b ≠ bank) : buffered c (a.popInBuf c kind bank up) b = buffered c a b := by
  simp only [buffered]
  refine Finset.sum_congr rfl fun u _ => ?_
  simp [DramArb.readInBufs, DramArb.writeInBufs, DramArb.popInBuf_inBufs, hb]

/-! ## One turn -/

/-- A turn in which the downstream takes a request removes one buffered request. -/
theorem arbitrateStep_buffered {r : Round δ} (h : Taken c P r bank) (b : Bank) :
    buffered c (arbitrateStep c P r bank).world.arb b + [bank].count b =
      buffered c r.world.arb b := by
  obtain ⟨head, htaken⟩ := Option.isSome_iff_exists.mp h
  obtain ⟨hmem, harb⟩ := offerAll_taken htaken
  obtain ⟨hup, rest, hhead⟩ := mem_offers hmem
  rw [arbitrateStep_eq]
  simp only
  rw [harb]
  by_cases hb : b = bank
  · subst hb
    simpa using buffered_popInBuf hup hhead
  · simp [buffered_popInBuf_of_ne hb, Ne.symm hb]

theorem arbitrateStep_arbEvent (r : Round δ) (bank : Bank) :
    (arbitrateStep c P r bank).world.arb.arbEvent = r.world.arb.arbEvent := by
  have hoffers := arbitrateBank_offers (P := P) bank r.world
  refine star_invariant (I := fun t => t.arb.arbEvent = r.world.arb.arbEvent) ?_ hoffers rfl
  intro s s' h hs
  cases h with
  | refused => exact hs
  | taken => exact hs

/-! ## A whole round -/

/-- When every downstream takes a request, every bank loses one. -/
theorem foldl_buffered {xs : List Bank} {r : Round δ}
    (h : Along (arbitrateStep c P) (Taken c P) xs r) (b : Bank) :
    buffered c (xs.foldl (arbitrateStep c P) r).world.arb b + xs.count b =
      buffered c r.world.arb b := by
  induction xs generalizing r with
  | nil => simp
  | cons x xs ih =>
    have hfirst := arbitrateStep_buffered h.1 b
    have hrest := ih h.2
    rw [List.foldl_cons, List.count_cons]
    rw [List.count_singleton] at hfirst
    omega

theorem rounds_buffered (h : AllTake c P w) (bank : Bank) :
    buffered c (rounds c P w).world.arb bank + 1 = buffered c w.arb bank := by
  have hcount : banks.count bank = 1 := by
    revert bank
    decide
  rw [← hcount]
  exact foldl_buffered h bank

theorem rounds_needResched : (rounds c P w).needResched = false ↔ AllTake c P w := by
  have hiff : (rounds c P w).needResched = false ↔
      (⟨false, false, w⟩ : Round δ).needResched = false ∧ AllTake c P w := by
    refine foldl_iff_along (fun r : Round δ => r.needResched = false) fun r bank => ?_
    rw [arbitrateStep_eq]
    simp [Taken]
  simpa using hiff

theorem rounds_hasPending :
    (rounds c P w).hasPending = true ↔ 0 < buffered c (rounds c P w).world.arb lastBank := by
  have hbanks : banks = [0, 1, 2, 3, 4, 5, 6] ++ [lastBank] := by decide
  rw [rounds, hbanks, List.foldl_append, ← checkPendingRequests_iff]
  exact Iff.rfl

theorem rounds_arbEvent : (rounds c P w).world.arb.arbEvent = w.arb.arbEvent :=
  foldl_invariant (fun r : Round δ => r.world.arb.arbEvent = w.arb.arbEvent)
    (fun r bank _ h => (arbitrateStep_arbEvent r bank).trans h) rfl

theorem arbitrate_buffered (bank : Bank) :
    buffered c (arbitrate c P w).arb bank = buffered c (rounds c P w).world.arb bank := by
  rw [arbitrate_core]
  rfl

theorem arbitrate_arbEvent (hevent : w.arb.arbEvent = false) :
    (arbitrate c P w).arb.arbEvent = ((rounds c P w).hasPending || (rounds c P w).needResched) := by
  rw [arbitrate_core]
  simp only [rounds_arbEvent, hevent, Bool.false_or]

/-- Exactly when a round leaves no request stranded. -/
theorem arbitrate_notStranded_iff (hevent : w.arb.arbEvent = false) :
    NotStranded c (arbitrate c P w).toCore ↔
      (AllTake c P w → 2 ≤ buffered c w.arb lastBank ∨ ∀ bank, buffered c w.arb bank ≤ 1) := by
  rw [notStranded_iff, arbitrate_arbEvent hevent, Bool.or_eq_true]
  simp only [arbitrate_buffered]
  by_cases htake : AllTake c P w
  · have hneed : (rounds c P w).needResched = false := rounds_needResched.mpr htake
    rw [hneed, rounds_hasPending]
    have hlast := rounds_buffered htake lastBank
    constructor
    · rintro ((hpending | hfalse) | hempty) _
      · exact .inl (by omega)
      · cases hfalse
      · refine .inr fun bank => ?_
        have hbank := rounds_buffered htake bank
        rw [hempty bank] at hbank
        omega
    · intro h
      obtain htwo | hone := h htake
      · exact .inl (.inl (by omega))
      · refine .inr fun bank => ?_
        have hbank := rounds_buffered htake bank
        have := hone bank
        omega
  · have hneed : (rounds c P w).needResched = true := by
      rw [← Bool.not_eq_false, rounds_needResched]
      exact htake
    simp [hneed, htake]

/-! ## Steps and runs -/

theorem Requested.notStranded (h : Requested c s s') (hs : NotStranded c s) : NotStranded c s' := by
  cases h with
  | accept => exact fun _ _ _ _ => rfl
  | refuse => exact hs

theorem RespMove.notStranded (h : RespMove c s s') (hs : NotStranded c s) : NotStranded c s' := by
  cases h with
  | requested h => exact h.notStranded hs
  | delivered => exact hs
  | bounced => exact hs
  | retried => exact hs
  | cleared => exact hs
  | event => exact hs

theorem sendResponse_notStranded (h : NotStranded c w.toCore) :
    NotStranded c (sendResponse c P w).toCore :=
  star_invariant (fun _ _ hmove hs => hmove.notStranded hs) (sendResponse_moves w) h

theorem step_notStranded {action : Action c.numUpstreams δ} (h : NotStranded c w.toCore)
    (hsafe : SafeRound c P w action) (hstep : step c P w action = some w') :
    NotStranded c w'.toCore := by
  cases action with
  | arbitrate =>
    obtain ⟨-, rfl⟩ := step_arbitrate hstep
    exact (arbitrate_notStranded_iff rfl).mpr hsafe
  | request bank up pkt =>
    cases hstep
    exact (recvTimingReqUp_requested up.isLt w).notStranded h
  | sendResponse =>
    obtain ⟨-, rfl⟩ := step_sendResponse hstep
    exact sendResponse_notStranded h
  | response bank pkt =>
    obtain ⟨resPkt, reads, up, ups, -, -, -, rfl⟩ := recvTimingResp_cases (step_response hstep)
    rw [accessAndRespond, scheduleSendResponseEvent_core]
    exact h
  | reqRetry bank =>
    cases hstep
    rw [handleReqRetry, scheduleArbEvent_core]
    exact fun _ _ _ _ => rfl
  | respRetry bank up =>
    cases hstep
    exact sendResponse_notStranded h
  | rest d =>
    cases hstep
    exact h

/-- In a run of safe rounds no request is stranded, and a round that is not safe strands one. -/
theorem request_not_stranded_iff_safeRound {d : δ} :
    (∀ w, Reach (Steps (step c P)) (SafeRound c P) (World.init d) w → NotStranded c w.toCore) ∧
    ∀ w action w', step c P w action = some w' → NotStranded c w'.toCore →
      SafeRound c P w action := by
  constructor
  · intro w h
    refine h.invariant (fun v => NotStranded c (World.toCore v)) ?_ ?_
    · exact fun _ _ _ hne => absurd hne (by simp [World.init, DramArb.init])
    · exact fun _ _ _ _ hv hok hstep => step_notStranded hv hok hstep
  · intro w action w' hstep h
    cases action with
    | arbitrate =>
      obtain ⟨-, rfl⟩ := step_arbitrate hstep
      exact (arbitrate_notStranded_iff rfl).mp h
    | _ => trivial

/-- Two reads on bank 0 and one on every other bank: a round in which everything is taken leaves
the second read of bank 0 behind and does not reschedule. -/
theorem request_stranded :
    ¬ ∀ w, Reach (Steps (step (Config.small 2 0) (Peers.constant true true))) Free
        (World.init ()) w → NotStranded (Config.small 2 0) w.toCore := by
  intro h
  obtain ⟨w, hw, hp⟩ := Reach.of_run (step (Config.small 2 0) (Peers.constant true true)) Free
    (World.init ())
    (.request 0 0 ⟨8, 128, false⟩ :: banks.map (fun bank => .request bank 0 ⟨bank, 64, false⟩) ++
      [.arbitrate])
    (fun w => w.arb.arbEvent = false ∧ w.arb.readInBufs 0 0 ≠ []) (by decide +kernel)
  obtain ⟨hevent, hne⟩ := of_decide_eq_true hp
  simp [h w hw 0 0 (by decide) (.inl hne)] at hevent

end NetSim.Arbiter
