import NetSim.Memory.Cycle

/-!
# What a cycle does to the pending reads

Whatever a cycle of a controller does, it answers some of the pending reads and keeps the others
(`Controller.Serves`): a read that is answered goes to the return queue once, and a `READ` command
of its address has been issued in this cycle. Nothing is assumed of the state of the controller.
-/

namespace NetSim.Memory

open Common

namespace Controller

variable {c : Config} {s t u : Controller c} {cmd : Command c}

/-- A read whose command is issued in the cycle `clk`. -/
def answered (c : Config) (clk : Nat) (t : Transaction) : Transaction :=
  { t with completeCycle := addDelay clk c.readDelay }

/-- The trace has a `READ` command of the address in the cycle `clk`. -/
def ReadAt (trace : List (Issued c)) (clk : Nat) (a : Addr) : Prop :=
  ∃ e ∈ trace, e.clk = clk ∧ e.cmd.cmdType.isRead = true ∧ e.cmd.hexAddr = a

theorem ReadAt.mono {trace trace' : List (Issued c)} {clk : Nat} {a : Addr}
    (h : ReadAt trace clk a) (htrace : trace <:+ trace') : ReadAt trace' clk a := by
  obtain ⟨e, he, hread⟩ := h
  exact ⟨e, htrace.subset he, hread⟩

/-- Within a cycle some of the pending reads are answered. -/
structure Serves (s t : Controller c) : Prop where
  clk : t.clk = s.clk
  refresh : t.refresh = s.refresh
  trace : s.cmdTrace <:+ t.cmdTrace
  done : ∃ done, t.returnQueue = s.returnQueue ++ done.map (answered c s.clk) ∧
    (done ++ t.pendingRdQ).Perm s.pendingRdQ ∧
    ∀ x ∈ done, ReadAt t.cmdTrace s.clk x.addr

namespace Serves

theorem same (hclk : t.clk = s.clk) (hrefresh : t.refresh = s.refresh)
    (htrace : t.cmdTrace = s.cmdTrace)
    (hreturn : t.returnQueue = s.returnQueue) (hread : t.pendingRdQ = s.pendingRdQ) :
    Serves s t where
  clk := hclk
  refresh := hrefresh
  trace := by rw [htrace]
  done := ⟨[], by simp [hreturn], by simp [hread], by simp⟩

theorem refl (s : Controller c) : Serves s s := same rfl rfl rfl rfl rfl

theorem trans (h : Serves s t) (h' : Serves t u) : Serves s u where
  clk := h'.clk.trans h.clk
  refresh := h'.refresh.trans h.refresh
  trace := h.trace.trans h'.trace
  done := by
    obtain ⟨done, hreturn, hperm, hread⟩ := h.done
    obtain ⟨done', hreturn', hperm', hread'⟩ := h'.done
    rw [h.clk] at hreturn' hread'
    refine ⟨done ++ done', ?_, ?_, fun x hx => ?_⟩
    · rw [hreturn', hreturn, List.map_append, List.append_assoc]
    · rw [List.append_assoc]
      exact (hperm'.append_left done).trans hperm
    · rcases List.mem_append.mp hx with hx | hx
      · exact (hread x hx).mono h'.trace
      · exact hread' x hx

end Serves

theorem issueCommand_serves (h : s.issueCommand cmd = .ok t) : Serves s t := by
  unfold issueCommand updatePending at h
  dsimp only at h
  by_cases hread : cmd.cmdType.isRead = true
  · rw [if_pos hread] at h
    split at h
    · cases h
    · rename_i v hpending
      split at hpending
      · cases hpending
      · cases hpending
        split at h
        · cases h
        · cases h
          refine ⟨rfl, rfl, List.suffix_cons _ _, _, rfl, ?_, fun x hx => ?_⟩
          · exact List.filter_append_perm _ _
          · refine ⟨_, List.mem_cons_self, rfl, hread, ?_⟩
            have haddr := (List.mem_filter.mp hx).2
            exact (of_decide_eq_true haddr).symm
  · rw [if_neg hread] at h
    have hsame {v : Controller c} (hv : (if cmd.cmdType.isWrite = true then
        if countAddr cmd.hexAddr s.pendingWrQ = 0 then .error .notInWriteQueue
        else .ok { s with
          cmdTrace := ⟨s.clk, cmd⟩ :: s.cmdTrace
          pendingWrQ := s.pendingWrQ.eraseP fun x => x.addr = cmd.hexAddr }
        else .ok { s with cmdTrace := ⟨s.clk, cmd⟩ :: s.cmdTrace } : Except Exit _) = .ok v) :
        v.clk = s.clk ∧ v.refresh = s.refresh ∧ v.cmdTrace = ⟨s.clk, cmd⟩ :: s.cmdTrace ∧
          v.returnQueue = s.returnQueue ∧ v.pendingRdQ = s.pendingRdQ := by
      split at hv
      · split at hv
        · cases hv
        · cases hv
          exact ⟨rfl, rfl, rfl, rfl, rfl⟩
      · cases hv
        exact ⟨rfl, rfl, rfl, rfl, rfl⟩
    split at h
    · cases h
    · rename_i v hpending
      obtain ⟨hclk, hrefresh, htrace, hreturn, hrd⟩ := hsame hpending
      split at h
      · cases h
      · cases h
        refine ⟨hclk, hrefresh, ?_, [], by simp [hreturn], by simp [hrd], by simp⟩
        show s.cmdTrace <:+ v.cmdTrace
        rw [htrace]
        exact List.suffix_cons _ _

theorem serves_issueClosed : IssueClosed (Serves (c := c)) where
  refl := .refl
  trans := .trans
  take {s t answer} h := by
    unfold takeCommand at h
    split at h
    · cases h
    · cases h
      exact .same rfl rfl rfl rfl rfl
  finish _ := .same rfl rfl rfl rfl rfl
  issue := issueCommand_serves
  idle _ := .same rfl rfl rfl rfl rfl

theorem setQueue_serves (s : Controller c) (ts : List Transaction) (src : Source) :
    Serves s (s.setQueue ts src) := by
  cases src <;> exact .same rfl rfl rfl rfl rfl

theorem scheduleFrom_serves (s : Controller c) (src : Source) (before queue : List Transaction) :
    Serves s (s.scheduleFrom src before queue) := by
  induction queue generalizing before with
  | nil => exact .refl s
  | cons x after ih =>
    unfold scheduleFrom
    dsimp only
    split
    · split
      · split
        · exact .same rfl rfl rfl rfl rfl
        · refine .trans ?_ (setQueue_serves _ _ _)
          exact .same rfl rfl rfl rfl rfl
      · refine .trans ?_ (setQueue_serves _ _ _)
        exact .same rfl rfl rfl rfl rfl
    · exact ih _

theorem scheduleTransaction_serves (s : Controller c) : Serves s s.scheduleTransaction := by
  have hstart : Serves s s.startDraining := by
    unfold startDraining
    split
    · exact .same rfl rfl rfl rfl rfl
    · exact .refl s
  exact hstart.trans (scheduleFrom_serves _ _ _ _)

/-- A cycle serves the pending reads after `Refresh::ClockTick`, and the clock goes on. -/
theorem clockTick_serves (h : s.clockTick = .ok t) :
    t.clk = s.clk + 1 ∧ ∃ u, Serves s.refreshed u ∧ u.refresh = t.refresh ∧
      u.cmdTrace = t.cmdTrace ∧ u.returnQueue = t.returnQueue ∧ u.pendingRdQ = t.pendingRdQ := by
  obtain ⟨u, hphase, rfl⟩ := clockTick_ok h
  have hscheduled := (serves_issueClosed.issuePhase hphase).trans (scheduleTransaction_serves u)
  exact ⟨congrArg (· + 1) hscheduled.clk, _, hscheduled, rfl, rfl, rfl, rfl⟩

end Controller

end NetSim.Memory
