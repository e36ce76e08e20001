import NetSim.Memory.Carriers
import NetSim.Memory.Device

/-!
# No transaction is lost

With two commands in a cycle, a read or a write that is ready as the second command leaves its queue
and is not issued when the first command was a read or a write too. Its transaction then stays
pending without a carrier. When two bursts are never ready in the same cycle (`BurstsApart`) this
does not happen, and every pending transaction keeps its carrier (`pending_has_carrier`).
-/

namespace NetSim.Memory

open Common Library

variable {c : Config}

/-- Every delay between two bursts that are not on one bank, or do not close it, is positive. -/
structure Config.BurstsApart (c : Config) : Prop where
  sameBankgroup : 0 < c.readToReadL ∧ 0 < c.writeToWriteL ∧ 0 < c.writeToReadL
  sameRank : 0 < c.readToReadS ∧ 0 < c.writeToWriteS ∧ 0 < c.writeToReadS
  readToWrite : 0 < c.readToWrite
  otherRanks : 1 < c.ranks →
    0 < c.readToReadO ∧ 0 < c.writeToWriteO ∧ 0 < c.writeToReadO ∧ 0 < c.readToWriteO

/-- The delay between two bursts is positive. -/
theorem Config.BurstsApart.delay (h : c.BurstsApart) (t u : CommandType) (a b : BankId c) :
    0 < burstDelay t u a b := by
  obtain ⟨⟨hrrl, hwwl, hwrl⟩, ⟨hrrs, hwws, hwrs⟩, hrw, hothers⟩ := h
  have hpick {rr rw wr ww : Int} (hrr : 0 < rr) (hrw : 0 < rw) (hwr : 0 < wr) (hww : 0 < ww) :
      0 < burstPick rr rw wr ww t u := by
    unfold burstPick
    split <;> split <;> assumption
  unfold burstDelay
  split
  · split
    · exact hpick hrrl hrw hwrl hwwl
    · exact hpick hrrs hrw hwrs hwws
  · rename_i hrank
    have hranks : 1 < c.ranks := by
      by_contra hone
      refine hrank (Fin.ext ?_)
      have hb := b.rank.isLt
      have ha := a.rank.isLt
      omega
    obtain ⟨hrro, hwwo, hwro, hrwo⟩ := hothers hranks
    exact hpick hrro hrwo hwro hwwo

namespace Controller

variable {s s' : Controller c}

/-- Every pending transaction has a carrier. -/
structure Kept (s : Controller c) : Prop where
  carried : Carried s
  timed : Timed s
  legal : Device.Executes s.cmdTrace s.device
  live : ∀ a w, countAddr a (s.pending w) ≠ 0 → s.carriers a w = 1

/-- A burst is not ready in the cycle of another one. -/
theorem Kept.not_ready {r first : Command c} (h : Kept s) (hapart : c.BurstsApart)
    (hfirst : s.cmdTrace.head? = some ⟨s.clk, first⟩) (hkind : first.cmdType.isReadWrite = true)
    (hrw : r.cmdType.isReadWrite = true) : ¬ Ready s.channelState s.clk r := by
  intro hready
  obtain ⟨trace, htrace⟩ : ∃ trace, s.cmdTrace = ⟨s.clk, first⟩ :: trace := by
    cases htrace : s.cmdTrace with
    | nil => simp [htrace] at hfirst
    | cons e trace =>
      rw [htrace] at hfirst
      exact ⟨trace, by rw [Option.some.inj hfirst]⟩
  have hopen : first.bank = r.bank → first.cmdType = .read ∨ first.cmdType = .write := by
    intro hbank
    -- the device has just executed the first command, and the bank is open
    have hlegal := h.legal
    rw [htrace] at hlegal
    cases hlegal with
    | next _ prior htakes =>
      rename_i d
      have hafter := htakes r.bank
      rw [if_pos ((ChannelState.touches_iff_of_bank
        (CommandType.isRankCMD_of_isReadWrite hkind)).mpr hbank.symm)] at hafter
      have hactive : s.device r.bank = .active r.row := by
        have hallows := hready.allows r.bank r.concerns_bank
        unfold Controller.device BankState.rowState
        unfold BankState.Allows at hallows
        rcases CommandType.isReadWrite_cases hrw with hr | hr | hr | hr <;>
        · rw [hr] at hallows
          simp [hallows]
      rw [hactive] at hafter
      rcases (RowState.takes_burst hafter hkind).2 with hidle | hopen
      · cases hidle
      · exact hopen
  have hmem := burstDelay_mem hkind hrw hopen
  have hpos := hapart.delay first.cmdType r.cmdType first.bank r.bank
  have hbound : addDelay s.clk (burstDelay first.cmdType r.cmdType first.bank r.bank) ≤
      (s.channelState.bankStates r.bank).cmdTiming r.cmdType :=
    h.timed.bound ⟨s.clk, first⟩ (by rw [htrace]; exact List.mem_cons_self) r.bank _ hmem
  have htime := hready.timing r.bank r.concerns_bank
  have hdelay := le_addDelay s.clk (burstDelay first.cmdType r.cmdType first.bank r.bank)
  omega

/-- Every pending transaction of `s'` has a carrier, unless it has changed. -/
theorem live_issued {i : Nat} {r : Command c} (h : Kept s) (hr : r ∈ s.cmdQueue.queues i) (a : Addr)
    (w : Bool) (hcount : countAddr a (((s.leaves r).issued r).pending w) ≠ 0) :
    ((s.leaves r).issued r).carriers a w = 1 := by
  have hplaced := h.carried.placed i r hr
  have hpending : (s.leaves r).pendingRdQ = s.pendingRdQ ∧
      (s.leaves r).pendingWrQ = s.pendingWrQ := by
    obtain ⟨q, hq⟩ := s.leaves_eq r
    rw [hq]
    exact ⟨rfl, rfl⟩
  have hcarriers : ((s.leaves r).issued r).carriers a w = (s.leaves r).carriers a w := rfl
  rw [hcarriers, carriers_leaves h.carried.placed hr]
  rw [issued_pending, hpending.1, hpending.2, hplaced.isRead] at hcount
  have hold := h.live a w
  have hsingle := h.carried.single a
  cases w with
  | true =>
    have hold : countAddr a s.pendingWrQ ≠ 0 → s.carriers a true = 1 := hold
    rw [if_pos rfl] at hcount
    split at hcount
    · rename_i hwrite
      by_cases ha : a = r.hexAddr
      · rw [if_pos ha] at hcount
        omega
      · rw [if_neg ha] at hcount
        rw [if_neg fun hr => ha hr.1]
        exact hold hcount
    · rename_i hwrite
      rw [if_neg fun hr => hwrite hr.2.symm]
      exact hold hcount
  | false =>
    have hold : countAddr a s.pendingRdQ ≠ 0 → s.carriers a false = 1 := hold
    rw [if_neg Bool.false_ne_true] at hcount
    split at hcount
    · exact absurd rfl hcount
    · rename_i hother
      rw [if_neg fun hr => hother ⟨by rw [← hr.2]; rfl, hr.1⟩]
      exact hold hcount

theorem Kept.move (hapart : c.enableHbmDualCmd = true → c.BurstsApart) (h : Kept s) (hs : InStep s)
    (hmove : Move s s') : Kept s' := by
  refine ⟨h.carried.move hs hmove, timed_invariant.move h.timed hmove,
    executes_invariant.move h.legal hmove, ?_⟩
  cases hmove with
  | due | turn | idle | drain | tick => exact h.live
  | @issue r horigin hissue =>
    cases hrw : r.cmdType.isReadWrite with
    | true =>
      obtain ⟨i, before, after, hqueue, -⟩ := horigin.mem_queue hs hrw
      exact live_issued h (i := i) (by rw [hqueue]; simp)
    | false =>
      have hsame := issued_other_same (s := s) hrw
      rw [hsame.carriers, hsame.pending]
      exact h.live
  | drop horigin hrw hdual hfirst hkind =>
    exact absurd horigin.ready (h.not_ready (hapart hdual) hfirst hkind hrw)
  | schedule hqueue hsrc haccept =>
    intro a w hcount
    rw [carriers_scheduled hqueue haccept]
    refine h.live a w ?_
    rwa [scheduled_pending] at hcount

theorem Kept.added {a : Addr} {w : Bool} (h : Kept s) (hadd : Added s a w s') : Kept s' := by
  refine ⟨h.carried.added hadd, timed_invariant.added h.timed hadd,
    executes_invariant.added h.legal hadd, fun b v hlive => ?_⟩
  have hold := h.live b v
  obtain ⟨-, hsame | ⟨hcarriers, hcount, hnone⟩ | ⟨rfl, hcarriers, hcount, hsome⟩⟩ := hadd.effect
  · rw [hsame.carriers]
    rw [hsame.pending] at hlive
    exact hold hlive
  · have hfree := h.carried.pending a w
    rw [hcount] at hlive
    rw [hcarriers]
    split
    · rename_i hb
      obtain ⟨rfl, rfl⟩ := hb
      omega
    · rename_i hb
      rw [if_neg hb] at hlive
      exact hold hlive
  · rw [hcount] at hlive
    rw [hcarriers]
    split at hlive
    · rename_i hb
      obtain ⟨rfl, rfl⟩ := hb
      exact h.live _ _ hsome
    · exact hold hlive

theorem Run.kept (hapart : c.enableHbmDualCmd = true → c.BurstsApart) (h : Run s) : Kept s := by
  refine (h.invariant Kept ⟨carried_init, timed_invariant.init, executes_invariant.init, ?_⟩
    ?_ ?_ ?_).1
  · intro a w hcount
    cases w <;> simp [pending, init, countAddr] at hcount
  · intro s s' hs hkept hmove
    exact hkept.move hapart hs hmove
  · intro s addr isWrite s' hkept _ hadded
    exact hkept.added hadded
  · intro s before t after hkept _
    refine ⟨hkept.carried.same ⟨rfl, rfl, rfl⟩, timed_invariant.returned hkept.timed _,
      executes_invariant.returned hkept.legal _, ?_⟩
    exact hkept.live

end Controller

/-- Where two bursts are never ready in the same cycle, or a cycle has one command, no transaction
is lost: an address has pending reads, or a pending write, exactly when one transaction or command
in the queues of the controller carries them to the device. -/
theorem pending_has_carrier (hapart : c.enableHbmDualCmd = true → c.BurstsApart)
    {s : Controller c} (h : Controller.Run s) (a : Addr) (w : Bool) :
    (countAddr a (s.pending w) ≠ 0 → s.carriers a w = 1) ∧
      (countAddr a (s.pending w) = 0 → s.carriers a w = 0) := by
  have hkept := h.kept hapart
  refine ⟨hkept.live a w, fun hnone => ?_⟩
  have hle := hkept.carried.pending a w
  omega

theorem hbm2_burstsApart : Config.hbm2.BurstsApart := by
  constructor <;> decide

/-- A read that waits for the activation of its bank. -/
theorem pending_has_carrier_read : ∃ s : Controller .hbm2, Controller.Run s ∧
    countAddr 64 (s.pending false) = 1 ∧ s.carriers 64 false = 1 := by
  obtain ⟨s, hs, hp⟩ := Reach.of_run Controller.step Free (Controller.init : Controller .hbm2)
    (.add 64 false :: List.replicate 3 .tick) (fun s => countAddr 64 (s.pending false) = 1)
    (by decide +kernel)
  have hpending := of_decide_eq_true hp
  have hcarrier := pending_has_carrier (fun _ => hbm2_burstsApart) hs 64 false
  exact ⟨s, hs, hpending, hcarrier.1 (by rw [hpending]; decide)⟩

end NetSim.Memory
