import NetSim.Memory.Budget
import NetSim.Memory.Callbacks
import NetSim.Memory.NoLoss
import NetSim.Memory.Schedule

/-!
# Accepted transactions are reported

Every cycle of a controller with a pending read uses a part of its budget, and only refreshes that
become due add to it. So when no more transactions come, and no write of the buffer waits for a read
that has not been scheduled, all reads are answered and all accepted transactions are reported
(`accepted_are_reported`).
-/

namespace NetSim.Memory

open Common Library NetSim.System

variable {c : Config} {p : Pace} {cmd r : Command c} {n : Nat}

/-- The longest of the delays. -/
def Pace.slowest (p : Pace) : Nat := max (max p.burst p.activate) (max p.precharge p.refresh)

theorem Pace.of_le (p : Pace) (t : CommandType) : p.of t ≤ p.slowest := by
  unfold slowest of
  cases t <;> dsimp only <;> omega

namespace Controller

variable {s t u : Controller c} {a : Addr}

/-! ## `ScheduleTransaction` -/

/-- When the command queues are empty, a pending read waits to be scheduled. -/
theorem Kept.waits (h : Kept s) (hfiled : Filed s)
    (hempty : ∀ i < c.numQueues, s.cmdQueue.queues i = []) (ha : countAddr a s.pendingRdQ ≠ 0) :
    (c.unifiedQueue = true ∧ s.unifiedQueue ≠ []) ∨
      (c.unifiedQueue = false ∧ ∃ x ∈ s.readQueue, x.addr = a) := by
  have hcarriers := h.live a false ha
  unfold carriers at hcarriers
  rw [hempty (queueOf c a) (Config.getQueueIndex_lt _), List.count_nil, Nat.add_zero] at hcarriers
  unfold waitingCount at hcarriers
  have hwrites : s.writeBuffer.countP (carries a false) = 0 := by
    rw [List.countP_eq_zero]
    intro x hx
    simp [carries, hfiled.writes x hx]
  cases hunified : c.unifiedQueue with
  | true =>
    refine Or.inl ⟨rfl, fun hnil => ?_⟩
    rw [hnil, hfiled.read hunified, hwrites] at hcarriers
    cases hcarriers
  | false =>
    rw [hfiled.unified hunified, hwrites, List.countP_nil, Nat.zero_add] at hcarriers
    obtain ⟨x, hx, hcarries⟩ := List.countP_pos_iff.mp (by omega :
      0 < s.readQueue.countP (carries a false))
    simp only [carries, Bool.and_eq_true, decide_eq_true_eq] at hcarries
    exact Or.inr ⟨rfl, x, hx, hcarries.1⟩

section Progress

variable (h : Kept s) (hfiled : Filed s) (hempty : ∀ i < c.numQueues, s.cmdQueue.queues i = [])

include h hfiled hempty in
/-- The queue that has its turn is not empty. -/
theorem queue_source_ne_nil (ha : countAddr a s.pendingRdQ ≠ 0) :
    s.startDraining.queue s.startDraining.source ≠ [] := by
  have hdraining := hfiled.startDraining.draining
  obtain ⟨n, hn⟩ := s.startDraining_eq
  rw [hn] at hdraining ⊢
  rcases h.waits hfiled hempty ha with ⟨hunified, hne⟩ | ⟨hunified, x, hx, -⟩
  · unfold source
    rw [if_pos hunified]
    exact hne
  · unfold source
    rw [if_neg (by simp [hunified])]
    split
    · rename_i hpos
      refine List.ne_nil_of_length_pos ?_
      show 0 < s.writeBuffer.length
      dsimp only at hpos hdraining
      omega
    · exact List.ne_nil_of_mem hx

include h hfiled hempty in
/-- No write waits for a read: it would wait in the read queue. -/
theorem not_stopped (hfluent : Fluent s) (hunified : c.unifiedQueue = false) {x : Transaction}
    (hx : x ∈ s.startDraining.queue s.startDraining.source) (hwrite : x.isWrite = true) :
    countAddr x.addr s.pendingRdQ = 0 := by
  by_contra hcount
  rcases hfluent hunified with hapart | ⟨hdraining, height, hfew⟩
  · rcases h.waits hfiled hempty hcount with ⟨hyes, -⟩ | ⟨-, y, hy, haddr⟩
    · rw [hunified] at hyes
      cases hyes
    · obtain ⟨n, hn⟩ := s.startDraining_eq
      rw [hn] at hx
      refine hapart y hy x ?_ haddr.symm
      cases hsource : source { s with writeDraining := n } with
      | unified =>
        rw [source_unified, hunified] at hsource
        cases hsource
      | write =>
        rw [hsource] at hx
        exact hx
      | read =>
        rw [hsource] at hx
        rw [hfiled.reads x hx] at hwrite
        cases hwrite
  · obtain ⟨hstart, hsource⟩ := startDraining_few hunified hdraining height hfew
    rw [hstart, hsource] at hx
    rw [hfiled.reads x hx] at hwrite
    cases hwrite

include h hfiled hempty in
/-- When the command queues are empty and a read is pending, a transaction is scheduled. -/
theorem scheduleTransaction_work (hfluent : Fluent s) (hsize : 0 < c.cmdQueueSize)
    (hpending : s.pendingRdQ ≠ []) : s.scheduleTransaction.work p + 1 ≤ s.work p := by
  obtain ⟨x, rest, hx⟩ := List.exists_cons_of_ne_nil hpending
  have hx : countAddr x.addr s.pendingRdQ ≠ 0 := by simp [hx, countAddr]
  obtain ⟨y, rest, hfirst⟩ := List.exists_cons_of_ne_nil (queue_source_ne_nil h hfiled hempty hx)
  have hstopped := fun y => not_stopped h hfiled hempty hfluent (x := y)
  obtain ⟨u, hu, hcases⟩ := s.scheduleTransaction_cases
  rw [← hu] at hfirst hstopped
  obtain ⟨n, hn⟩ := s.startDraining_eq
  rw [hn] at hu
  rcases hcases with ⟨-, hrefused⟩ | ⟨-, hunified, z, hz, hwrite, hcount⟩ |
    ⟨before, z, after, hqueue, haccept, htaken⟩
  · -- there is room for the first transaction
    exfalso
    have hroom : u.cmdQueue.willAcceptCommand (c.addressMapping y.addr).bank = true := by
      rw [hu]
      unfold CommandQueue.willAcceptCommand
      rw [hempty _ (Config.getQueueIndex_lt _)]
      simpa using hsize
    have hrefuse := hrefused y (by rw [hfirst]; exact List.mem_cons_self)
    unfold Refused at hrefuse
    rw [hroom] at hrefuse
    cases hrefuse
  · refine absurd (hstopped z hunified hz hwrite) ?_
    rwa [hu] at hcount
  · rw [htaken]
    have hsame : work p { u with writeDraining := u.drainingAfter z } = s.work p := by
      rw [hu]
      rfl
    rw [← hsame]
    refine work_scheduled ?_ haccept
    rw [← hqueue]
    cases u.source <;> rfl

end Progress

/-- `ScheduleTransaction` changes the queues of transactions and adds a command. -/
theorem scheduleTransaction_frame (s : Controller c) :
    s.scheduleTransaction.clk = s.clk ∧ s.scheduleTransaction.channelState = s.channelState ∧
      s.scheduleTransaction.cmdQueue.refQIndices = s.cmdQueue.refQIndices ∧
      s.scheduleTransaction.cmdQueue.isInRef = s.cmdQueue.isInRef ∧
      s.scheduleTransaction.cmdQueue.queueIdx = s.cmdQueue.queueIdx := by
  have hadd (q : CommandQueue c) (x : Command c) : (q.addCommand x).2.refQIndices = q.refQIndices ∧
      (q.addCommand x).2.isInRef = q.isInRef ∧ (q.addCommand x).2.queueIdx = q.queueIdx := by
    unfold CommandQueue.addCommand
    dsimp only
    split <;> exact ⟨rfl, rfl, rfl⟩
  obtain ⟨n, hn⟩ := s.startDraining_eq
  obtain ⟨u, rfl, hcases⟩ := s.scheduleTransaction_cases
  rw [hn] at hcases
  rcases hcases with ⟨hsame, -⟩ | ⟨hstop, -⟩ | ⟨before, x, after, -, -, htaken⟩
  · rw [hsame]
    exact ⟨rfl, rfl, rfl, rfl, rfl⟩
  · rw [hstop]
    exact ⟨rfl, rfl, rfl, rfl, rfl⟩
  · obtain ⟨hrefs, hin, hidx⟩ := hadd s.cmdQueue (transToCommand x.addr x.isWrite)
    rw [htaken]
    unfold scheduled
    rw [setQueue_cmdQueue]
    cases source _ <;> exact ⟨rfl, rfl, hrefs, hin, hidx⟩

theorem scheduleTransaction_work_le (s : Controller c) :
    s.scheduleTransaction.work p ≤ s.work p := by
  obtain ⟨n, hn⟩ := s.startDraining_eq
  obtain ⟨u, rfl, hcases⟩ := s.scheduleTransaction_cases
  rw [hn] at hcases
  rcases hcases with ⟨hsame, -⟩ | ⟨hstop, -⟩ | ⟨before, x, after, hqueue, haccept, htaken⟩
  · rw [hsame]
    exact le_rfl
  · rw [hstop]
    exact le_rfl
  · rw [htaken]
    refine Nat.le_of_lt (work_scheduled (p := p) ?_ haccept)
    rw [← hqueue]
    cases source _ <;> rfl

theorem Regular.scheduleTransaction (hoff : c.enableSelfRefresh = false) (h : Regular s) :
    Regular s.scheduleTransaction := by
  have hmoves := scheduleTransaction_moves s
  obtain ⟨-, hstate, hrefs, hin, hidx⟩ := s.scheduleTransaction_frame
  refine ⟨h.schedule.moves hoff h.inStep hmoves, hmoves.inStep h.inStep, ?_, ?_⟩
  · unfold Blocks
    rw [hstate, hrefs, hin]
    exact h.blocks
  · rw [hidx]
    exact h.turn

theorem Regular.countIdleCycles (hoff : c.enableSelfRefresh = false) (h : Regular s) :
    Regular s.countIdleCycles := by
  have hmove : Move s s.countIdleCycles := .idle s _
  exact ⟨h.schedule.move hoff h.inStep hmove, hmove.inStep h.inStep, h.blocks, h.turn⟩

theorem Regular.nextCycle (hoff : c.enableSelfRefresh = false) (h : Regular s) :
    Regular s.nextCycle := by
  have hmove : Move s s.nextCycle := .tick s
  exact ⟨h.schedule.move hoff h.inStep hmove, hmove.inStep h.inStep, h.blocks, h.turn⟩

/-! ## A cycle -/

theorem Budget.countIdleCycles (h : Budget p s n) : Budget p s.countIdleCycles n := by
  obtain ⟨d, hd, hbudget⟩ := h
  exact ⟨d, ⟨hd.timing, hd.fourAw, hd.thirtyTwoAw⟩, hbudget⟩

theorem firstCommand_channelState {answer : Option (Command c)}
    (h : s.firstCommand = .ok (answer, t)) : t.channelState = s.channelState := by
  have htake {u : Controller c} (hu : u.channelState = s.channelState)
      (h : u.takeCommand = .ok (answer, t)) : t.channelState = s.channelState := by
    unfold takeCommand at h
    split at h
    · cases h
    · cases h
      exact hu
  unfold firstCommand at h
  split at h
  · exact htake rfl h
  · split at h
    · cases h
    · cases h
      rfl
    · rename_i q _
      exact htake (u := { s with cmdQueue := q }) rfl h

/-- What comes before `ScheduleTransaction` issues a command, or finds none. -/
theorem issuePhase_budget (hoff : c.enableSelfRefresh = false) (hp : c.Paced p)
    (hs : Regular s.refreshed) (hbudget : Budget p s.refreshed n) (h : s.issuePhase = .ok u) :
    Regular u ∧ (Spent p u n ∨
      ∃ v, s.refreshed.firstCommand = .ok (none, v) ∧ u = v.countIdleCycles ∧ Budget p u n) := by
  unfold issuePhase at h
  split at h
  · cases h
  · rename_i cmdIssued v hissue
    rw [hoff, Bool.false_and, if_neg Bool.false_ne_true] at h
    cases h
    obtain ⟨hv, hcases⟩ := issueCommands_budget hoff hp hs hbudget hissue
    refine ⟨hv.countIdleCycles hoff, hcases.imp ?_ ?_⟩
    · rintro ⟨-, m, hm, hspent⟩
      exact ⟨m, hm, hspent.countIdleCycles⟩
    · rintro ⟨hfirst, hvbudget⟩
      exact ⟨v, hfirst, rfl, hvbudget.countIdleCycles⟩

/-- The requests of a cycle are added to the budget. -/
theorem refreshed_budget (hoff : c.enableSelfRefresh = false) (hs : Regular s)
    (hbudget : Budget p s n) :
    Regular s.refreshed ∧ Budget p s.refreshed (n + p.refreshing c *
      (c.requestCount (s.refresh.clk + 1) - c.requestCount s.refresh.clk)) := by
  obtain ⟨-, new, hqueue, hrequests⟩ := Refresh.clockTick_eq hs.schedule.place hs.schedule.awake
  have hlength : new.length =
      c.requestCount (s.refresh.clk + 1) - c.requestCount s.refresh.clk := by
    have hlength := congrArg List.length hrequests
    simp only [List.length_append, List.length_map, List.length_range] at hlength
    omega
  have hdue : s.refreshed = s.due (s.refresh.clockTick s.channelState).1 new := by
    unfold refreshed due
    rw [hqueue]
  have hmove := s.refresh_clockTick_move
  have hwork := work_due (p := p) hs.blocks (s.refresh.clockTick s.channelState).1 new
  refine ⟨⟨hs.schedule.move hoff hs.inStep hmove, hmove.inStep hs.inStep, ?_, hs.turn⟩, ?_⟩
  · intro hin
    obtain ⟨ref, rest, hfront, hindices⟩ := hs.blocks hin
    rw [hdue]
    refine ⟨ref, rest ++ new, ?_, hindices⟩
    show s.channelState.refreshQ ++ new = _
    rw [hfront]
    rfl
  · obtain ⟨d, hd, hbudget⟩ := hbudget
    rw [hdue, ← hlength]
    refine ⟨d, ⟨hd.timing, hd.fourAw, hd.thirtyTwoAw⟩, ?_⟩
    show d - s.clk + _ ≤ _
    omega

/-- The end of a cycle uses up a delay, or work that has just been done. -/
theorem Budget.nextCycle (h : Budget p s n) : Budget p s.nextCycle n := by
  obtain ⟨d, hd, hbudget⟩ := h
  refine ⟨d, hd, ?_⟩
  show d - (s.clk + 1) + s.work p ≤ n
  omega

/-! ## Runs -/

theorem Regular.cycle (hoff : c.enableSelfRefresh = false) (hp : c.Paced p) (hs : Regular s)
    (hbudget : Budget p s n) (h : s.clockTick = .ok t) : Regular t := by
  obtain ⟨u, hphase, rfl⟩ := clockTick_ok h
  obtain ⟨hrefreshed, hrbudget⟩ := refreshed_budget hoff hs hbudget
  obtain ⟨hu, -⟩ := issuePhase_budget hoff hp hrefreshed hrbudget hphase
  exact (hu.scheduleTransaction hoff).nextCycle hoff

/-- All delays of a run pass within the longest of them. -/
theorem Run.settled (hoff : c.enableSelfRefresh = false) (hp : c.Paced p) (h : Run s) :
    Settled s.channelState (s.clk + p.slowest) := by
  refine ((h.invariant (fun s => OnSchedule s ∧ Settled s.channelState (s.clk + p.slowest))
    ⟨onSchedule_init hoff, ?_⟩ ?_ ?_ ?_).1).2
  · constructor <;> simp [init, ChannelState.init, BankState.init]
  · rintro s s' hs ⟨hschedule, hsettled⟩ hmove
    refine ⟨hschedule.move hoff hs hmove, ?_⟩
    cases hmove with
    | due | turn | idle | drain =>
      exact ⟨hsettled.timing, hsettled.fourAw, hsettled.thirtyTwoAw⟩
    | tick => exact hsettled.mono (by dsimp only; omega)
    | @issue r horigin hissue =>
      have huses := horigin.uses hoff hs hschedule
      have hle := p.of_le r.cmdType
      obtain ⟨q, hq⟩ := s.leaves_eq r
      rw [hq]
      exact (hsettled.applied hp huses).mono (by dsimp only [issued]; omega)
    | @drop r =>
      obtain ⟨q, hq⟩ := s.leaves_eq r
      rw [hq]
      exact hsettled
    | @schedule src => cases src <;> exact hsettled
  · rintro s addr isWrite s' ⟨hschedule, hsettled⟩ _ hadded
    obtain ⟨hclk, hstate, -, -, -⟩ := hadded.frame
    refine ⟨hschedule.added hadded, ?_⟩
    rw [hclk, hstate]
    exact hsettled
  · rintro s before x after ⟨hschedule, hsettled⟩ _
    exact ⟨hschedule.returned _, hsettled⟩

theorem Run.budget (hoff : c.enableSelfRefresh = false) (hp : c.Paced p) (h : Run s) :
    Budget p s (p.slowest + s.work p) :=
  ⟨s.clk + p.slowest, h.settled hoff hp, by omega⟩

theorem Run.regular (hoff : c.enableSelfRefresh = false) (hp : c.Paced p) (h : Run s) :
    Regular s := by
  refine Reach.invariant Regular ?_ ?_ h
  · refine ⟨onSchedule_init hoff, inStep_init, blocks_of_free rfl, ?_⟩
    exact (Nat.zero_le _).trans_lt (Config.getQueueIndex_lt (firstBank c ⟨0, c.ranks_pos⟩))
  · intro s action t hrun hs _ hstep
    have hnext : Run t := .next action hrun trivial hstep
    have hschedule := hnext.onSchedule hoff
    have hinStep := (hnext.steady hoff).2
    cases action with
    | add addr isWrite =>
      unfold Steps step at hstep
      dsimp only at hstep
      split at hstep
      · cases hstep
        obtain ⟨-, hstate, hqueue, -, -⟩ := (addTransaction_added s addr isWrite).frame
        refine ⟨hschedule, hinStep, ?_, ?_⟩
        · unfold Blocks
          rw [hstate, hqueue]
          exact hs.blocks
        · rw [hqueue]
          exact hs.turn
      · cases hstep
    | returnDone clk =>
      unfold Steps step at hstep
      obtain ⟨⟨x, v⟩, hreturned, rfl⟩ := Option.map_eq_some_iff.mp hstep
      obtain ⟨before, after, -, -, rfl⟩ := returnDoneTrans_eq hreturned
      exact ⟨hschedule, hinStep, hs.blocks, hs.turn⟩
    | tick =>
      exact hs.cycle hoff hp (Run.budget hoff hp hrun) (ok_of_toOption hstep)

/-- When all delays have passed and no command is found, the command queues are empty. -/
theorem queues_empty (hs : Regular s) (hsettled : Settled s.channelState s.clk)
    (hnone : s.firstCommand = .ok (none, t)) {i : Nat} (hi : i < c.numQueues) :
    s.cmdQueue.queues i = [] := by
  by_contra hne
  have hmark : s.channelState.refreshQ = [] → s.cmdQueue.isInRef = false := by
    intro hempty
    by_contra hin
    obtain ⟨ref, rest, hfront, -⟩ := hs.blocks (by simpa using hin)
    rw [hempty] at hfront
    cases hfront
  obtain ⟨r, v, hsome⟩ :=
    firstCommand_settled hs.schedule.steady hs.inStep hsettled hs.turn hmark (Or.inr ⟨i, hi, hne⟩)
  rw [hnone] at hsome
  cases hsome

section Liveness

variable (hoff : c.enableSelfRefresh = false) (hp : c.Paced p) (hsize : 0 < c.cmdQueueSize)
  (hapart : c.enableHbmDualCmd = true → c.BurstsApart)

include hoff hp hsize hapart in
/-- A cycle that ends with a pending read uses a part of the budget. -/
theorem Run.cycle (h : Run s) (hfluent : Fluent s) (hbudget : Budget p s n)
    (htick : s.clockTick = .ok t) :
    Fluent t ∧ (t.pendingRdQ ≠ [] →
      Spent p t (n + p.refreshing c * (c.requestCount (s.clk + 1) - c.requestCount s.clk))) := by
  obtain ⟨u, hphase, rfl⟩ := clockTick_ok htick
  have hs := h.regular hoff hp
  obtain ⟨hrefreshed, hrbudget⟩ := refreshed_budget hoff hs hbudget
  rw [h.refresh_clk] at hrbudget
  obtain ⟨hu, hcases⟩ := issuePhase_budget hoff hp hrefreshed hrbudget hphase
  have hdrains := drains_issueClosed.issuePhase hphase
  have hfiled := h.filed
  have hufiled : Filed u := Filed.drained (s := s.refreshed) ⟨hfiled.unified, hfiled.read,
    hfiled.write, hfiled.reads, hfiled.writes, hfiled.draining⟩ hdrains
  have hufluent : Fluent u := Fluent.drained (s := s.refreshed) hfluent hdrains
  obtain ⟨hclk, hstate, -, -, -⟩ := u.scheduleTransaction_frame
  refine ⟨hufluent.scheduleTransaction hufiled, fun hpending => ?_⟩
  rcases hcases with ⟨m, hm, hspent⟩ | ⟨v, hfirst, huv, d, hd, hleft⟩
  · exact ⟨m, hm, (hspent.work_le hclk hstate u.scheduleTransaction_work_le).nextCycle⟩
  · by_cases hlate : u.clk < d
    · -- a delay has not passed
      have hwork := u.scheduleTransaction_work_le (p := p)
      refine ⟨_, Nat.sub_lt (by omega) Nat.one_pos, d, hstate ▸ hd, ?_⟩
      show d - (u.scheduleTransaction.clk + 1) + u.scheduleTransaction.work p ≤ _
      rw [hclk]
      omega
    · -- nothing waits in the command queues
      have huclk : u.clk = s.clk := (serves_issueClosed.issuePhase hphase).clk
      have hsettled : Settled s.refreshed.channelState s.refreshed.clk := by
        have hv := firstCommand_channelState hfirst
        rw [huv] at hd
        have hd : Settled v.channelState d := ⟨hd.timing, hd.fourAw, hd.thirtyTwoAw⟩
        rw [hv] at hd
        exact hd.mono (by show d ≤ s.clk; omega)
      have hempty (i : Nat) (hi : i < c.numQueues) : u.cmdQueue.queues i = [] := by
        have hsub := hdrains.queues i
        rwa [queues_empty hrefreshed hsettled hfirst hi, List.sublist_nil] at hsub
      have hkept : Kept u := (issuePhase_moves hs.inStep hphase).keeps Kept
        (fun _ _ hs hkept hmove => hkept.move hapart hs hmove) hs.inStep (h.kept hapart)
      have hupending : u.pendingRdQ ≠ [] := by
        obtain ⟨done, -, hperm, -⟩ := (scheduleTransaction_serves u).done
        intro hnil
        rw [hnil] at hperm
        exact hpending (List.append_eq_nil_iff.mp hperm.eq_nil).2
      have hwork := scheduleTransaction_work (p := p) hkept hufiled hempty hufluent hsize hupending
      refine ⟨_, Nat.sub_lt (by omega) Nat.one_pos, d, hstate ▸ hd, ?_⟩
      show d - (u.scheduleTransaction.clk + 1) + u.scheduleTransaction.work p ≤ _
      rw [hclk]
      omega

end Liveness

theorem Added.returned_le {w : Bool} (hdelay : 0 < c.readDelay) (h : Added s a w t)
    (hs : ∀ x ∈ s.returnQueue, x.completeCycle ≤ s.clk + c.readDelay.toNat) :
    ∀ x ∈ t.returnQueue, x.completeCycle ≤ t.clk + c.readDelay.toNat := by
  have hprompt {w : Bool} : ∀ x ∈ s.returnQueue ++ [s.prompt a w],
      x.completeCycle ≤ s.clk + c.readDelay.toNat := by
    intro x hx
    rcases List.mem_append.mp hx with hx | hx
    · exact hs x hx
    · rw [List.mem_singleton.mp hx]
      show s.clk + 1 ≤ _
      omega
  cases h with
  | merge | forward => exact hprompt
  | join => exact hs
  | write => cases destination c true <;> exact hprompt
  | read => cases destination c false <;> exact hs

/-- What is done is returned within `read_delay` cycles. -/
theorem Run.returned_le (hdelay : 0 < c.readDelay) (h : Run s) :
    ∀ x ∈ s.returnQueue, x.completeCycle ≤ s.clk + c.readDelay.toNat := by
  refine Reach.invariant
    (fun s => ∀ x ∈ s.returnQueue, x.completeCycle ≤ s.clk + c.readDelay.toNat) ?_ ?_ h
  · simp [init]
  · intro s action t _ hs _ hstep
    cases action with
    | add addr isWrite =>
      unfold Steps step at hstep
      dsimp only at hstep
      split at hstep
      · cases hstep
        exact (addTransaction_added s addr isWrite).returned_le hdelay hs
      · cases hstep
    | returnDone clk =>
      unfold Steps step at hstep
      obtain ⟨⟨x, v⟩, hreturned, rfl⟩ := Option.map_eq_some_iff.mp hstep
      obtain ⟨before, after, hqueue, -, rfl⟩ := returnDoneTrans_eq hreturned
      intro y hy
      refine hs y ?_
      rw [hqueue]
      exact mem_of_mem_rest hy
    | tick =>
      obtain ⟨hclk, u, hserves, -, -, hreturn, -⟩ := clockTick_serves (ok_of_toOption hstep)
      obtain ⟨done, hdone, -, -⟩ := hserves.done
      intro x hx
      rw [← hreturn, hdone] at hx
      rw [hclk]
      rcases List.mem_append.mp hx with hx | hx
      · have hle := hs x hx
        omega
      · obtain ⟨y, -, rfl⟩ := List.mem_map.mp hx
        have heq : (addDelay s.clk c.readDelay : Int) = s.clk + c.readDelay := addDelay_eq hdelay.le
        show addDelay s.clk c.readDelay ≤ _
        omega

end Controller

/-! ## The memory system -/

namespace Config

theorem requestCount_mono (c : Config) {k m : Nat} (h : k ≤ m) :
    c.requestCount k ≤ c.requestCount m := Nat.div_le_div_right (by omega)

/-- The requests in `n` cycles. -/
theorem requestCount_add_le (c : Config) (k n : Nat) :
    c.requestCount (k + n) - c.requestCount k ≤ n / c.interval + 1 := by
  have hle : c.requestCount (k + n) ≤ (k - 1 + n) / c.interval := Nat.div_le_div_right (by omega)
  have hadd := Nat.add_div (a := k - 1) (b := n) c.interval_ne_zero
  have hcount : c.requestCount k = (k - 1) / c.interval := rfl
  rw [hcount]
  generalize n / c.interval = q at *
  generalize (k - 1) / c.interval = q' at *
  split at hadd <;> omega

end Config

namespace JedecDRAMSystem

variable {s t : JedecDRAMSystem c} {accepted : List (Nat × Completion)}
  {reported later : List (Nat × Transaction)}

/-- Cycles without new transactions, and what they report. -/
def cycles (s : JedecDRAMSystem c) :
    Nat → Except Exit (JedecDRAMSystem c × List (Nat × Transaction))
  | 0 => .ok (s, [])
  | n + 1 =>
    match s.cycles n with
    | .error e => .error e
    | .ok (t, later) =>
      match t.clockTick with
      | .error e => .error e
      | .ok t' => .ok (t', later ++ t.reported.map fun x => (t.clk, x))

theorem cycles_add {m : Nat} (h : s.cycles n = .ok (t, later)) {t' : JedecDRAMSystem c}
    {later' : List (Nat × Transaction)} (h' : t.cycles m = .ok (t', later')) :
    s.cycles (n + m) = .ok (t', later ++ later') := by
  induction m generalizing t' later' with
  | zero =>
    cases h'
    simpa using h
  | succ m ih =>
    unfold cycles at h'
    split at h'
    · cases h'
    · rename_i u reports hu
      split at h'
      · cases h'
      · rename_i v hv
        cases h'
        rw [← Nat.add_assoc]
        unfold cycles
        rw [ih hu]
        dsimp only
        rw [hv]
        dsimp only
        rw [List.append_assoc]

/-- What quiet cycles report is no longer in flight. -/
theorem cycles_inFlight (h : s.cycles n = .ok (t, later)) :
    ((later.map fun x => x.2.arrival : List _) : Multiset (Nat × Completion)) + t.inFlight =
      s.inFlight := by
  induction n generalizing t later with
  | zero =>
    cases h
    simp
  | succ n ih =>
    unfold cycles at h
    split at h
    · cases h
    · rename_i u reports hu
      split at h
      · cases h
      · rename_i v hv
        cases h
        rw [← ih hu, ← clockTick_inFlight hv, List.map_append, List.map_map, ← Multiset.coe_add,
          add_assoc]
        rfl

/-- What every quiet cycle keeps holds after all of them. -/
theorem History.cycles (hoff : c.enableSelfRefresh = false) (h : History s accepted reported)
    (I : Nat → JedecDRAMSystem c → Prop) (h0 : I 0 s)
    (hstep : ∀ k t t', (∃ reported, History t accepted reported) → t.clk = s.clk + k → I k t →
      t.clockTick = .ok t' → I (k + 1) t') (n : Nat) :
    ∃ t later, s.cycles n = .ok (t, later) ∧ History t accepted (reported ++ later) ∧
      t.clk = s.clk + n ∧ I n t := by
  induction n with
  | zero => exact ⟨s, [], rfl, by simpa using h, rfl, h0⟩
  | succ n ih =>
    obtain ⟨t, later, hcycles, ht, hclk, hI⟩ := ih
    have hreturns : ∃ t', t.clockTick = .ok t' :=
      clockTick_returns fun i => controller_never_exits hoff (returnFrom_run _ _ (ht.run i))
    obtain ⟨t', htick⟩ := hreturns
    refine ⟨t', later ++ t.reported.map fun x => (t.clk, x), ?_, ?_, ?_, ?_⟩
    · unfold JedecDRAMSystem.cycles
      rw [hcycles]
      dsimp only
      rw [htick]
    · rw [← List.append_assoc]
      exact ht.tick htick
    · rw [(clockTick_ok htick).1, hclk, Nat.add_assoc]
    · exact hstep n t t' ⟨_, ht⟩ hclk hI htick

/-- A controller without pending reads, in a cycle of the memory system. -/
theorem clockTick_idle (htick : s.clockTick = .ok t) {i : Fin c.channels}
    (hidle : (s.ctrls i).pendingRdQ = []) :
    (t.ctrls i).pendingRdQ = [] ∧ ∀ x ∈ (t.ctrls i).returnQueue, x ∈ (s.ctrls i).returnQueue := by
  have hticked := (clockTick_ok htick).2 i
  rw [returnDone_eq] at hticked
  obtain ⟨-, u, hserves, -, -, hreturn, hread⟩ := Controller.clockTick_serves hticked
  obtain ⟨done, hdone, hperm, -⟩ := hserves.done
  have hperm : (done ++ u.pendingRdQ).Perm (s.ctrls i).pendingRdQ := hperm
  rw [hidle] at hperm
  obtain ⟨rfl, hnone⟩ := List.append_eq_nil_iff.mp hperm.eq_nil
  refine ⟨hread ▸ hnone, fun x hx => ?_⟩
  rw [← hreturn, hdone, List.map_nil, List.append_nil] at hx
  exact List.mem_of_mem_filter hx

/-- After `k` quiet cycles from `s`, a controller has no pending read or has used `k` cycles of its
budget. -/
def WithinBudget (p : Pace) (s : JedecDRAMSystem c) (k : Nat) (t : JedecDRAMSystem c) : Prop :=
  ∀ i, (t.ctrls i).pendingRdQ = [] ∨ (t.ctrls i).Fluent ∧ ∃ m, (t.ctrls i).Budget p m ∧
    m + k ≤ p.slowest + (s.ctrls i).work p +
      p.refreshing c * (c.requestCount (s.clk + k) - c.requestCount s.clk)

section Liveness

variable (hoff : c.enableSelfRefresh = false) (hp : c.Paced p) (hsize : 0 < c.cmdQueueSize)
  (hapart : c.enableHbmDualCmd = true → c.BurstsApart)

include hoff hp hsize hapart in
/-- In a cycle of the memory system every controller with a pending read uses a part of its
budget. -/
theorem clockTick_budget (h : History s accepted reported) (htick : s.clockTick = .ok t)
    {i : Fin c.channels} (hfluent : (s.ctrls i).Fluent) (hbudget : (s.ctrls i).Budget p n) :
    (t.ctrls i).Fluent ∧ ((t.ctrls i).pendingRdQ ≠ [] →
      (t.ctrls i).Spent p (n + p.refreshing c *
        (c.requestCount (s.clk + 1) - c.requestCount s.clk))) := by
  have hrun : (returnDone s.clk (s.ctrls i)).2.Run := returnFrom_run _ _ (h.run i)
  have hticked := (clockTick_ok htick).2 i
  rw [returnDone_eq] at hrun hticked
  have hcycle := hrun.cycle hoff hp hsize hapart hfluent hbudget hticked
  dsimp only at hcycle
  rwa [h.clk i] at hcycle

include hoff hp hsize hapart in
theorem WithinBudget.tick {k : Nat} {u u' : JedecDRAMSystem c} (h : WithinBudget p s k u)
    (hu : History u accepted reported) (hclk : u.clk = s.clk + k) (htick : u.clockTick = .ok u') :
    WithinBudget p s (k + 1) u' := by
  intro i
  rcases h i with hnone | ⟨hfluent, m, hbudget, hm⟩
  · exact Or.inl (clockTick_idle htick hnone).1
  · obtain ⟨hfluent', hspent⟩ := clockTick_budget hoff hp hsize hapart hu htick hfluent hbudget
    by_cases hnone : (u'.ctrls i).pendingRdQ = []
    · exact Or.inl hnone
    · obtain ⟨m', hm', hbudget'⟩ := hspent hnone
      refine Or.inr ⟨hfluent', m', hbudget', ?_⟩
      have hfirst := c.requestCount_mono (Nat.le_add_right s.clk k)
      have hnext := c.requestCount_mono (Nat.le_add_right (s.clk + k) 1)
      have hsplit : c.requestCount (s.clk + (k + 1)) - c.requestCount s.clk =
          (c.requestCount (s.clk + k) - c.requestCount s.clk) +
            (c.requestCount (u.clk + 1) - c.requestCount u.clk) := by
        rw [hclk, ← Nat.add_assoc]
        omega
      rw [hsplit, Nat.mul_add]
      omega

include hoff hp hsize hapart in
/-- When the budget of a controller has been used, all its reads are answered. -/
theorem reads_answered (h : History s accepted reported) (hfluent : ∀ i, (s.ctrls i).Fluent)
    (hn : ∀ i, p.slowest + (s.ctrls i).work p + p.refreshing c * (n / c.interval + 1) < n) :
    ∃ t later, s.cycles n = .ok (t, later) ∧ History t accepted (reported ++ later) ∧
      t.clk = s.clk + n ∧ ∀ i, (t.ctrls i).pendingRdQ = [] := by
  have hstart : WithinBudget p s 0 s := fun i =>
    Or.inr ⟨hfluent i, _, (h.run i).budget hoff hp, by simp⟩
  obtain ⟨t, later, hcycles, ht, hclk, hwithin⟩ := h.cycles hoff (WithinBudget p s) hstart
    (fun k u u' ⟨_, hu⟩ hclk hwithin htick =>
      hwithin.tick hoff hp hsize hapart hu hclk htick) n
  refine ⟨t, later, hcycles, ht, hclk, fun i => ?_⟩
  rcases hwithin i with hnone | ⟨-, m, -, hm⟩
  · exact hnone
  · -- more cycles than the budget
    exfalso
    have hrequests := Nat.mul_le_mul_left (p.refreshing c) (c.requestCount_add_le s.clk n)
    have hni := hn i
    omega

end Liveness

/-- There is a number of cycles that exceeds the budget of every controller exactly when a refresh
costs fewer cycles than lie between two of them. -/
theorem exists_cycles_iff (s : JedecDRAMSystem c) :
    (∃ n, ∀ i, p.slowest + (s.ctrls i).work p + p.refreshing c * (n / c.interval + 1) < n) ↔
      p.refreshing c < c.interval := by
  constructor
  · rintro ⟨n, hn⟩
    by_contra hle
    have hpay := Nat.mul_le_mul_right (n / c.interval + 1) (not_lt.mp hle)
    have hcycles := Nat.lt_mul_div_succ n c.interval_ne_zero
    have hlt := hn ⟨0, c.channels_pos⟩
    omega
  · intro hlt
    let work := ∑ i, (p.slowest + (s.ctrls i).work p)
    let k := work + p.refreshing c + 1
    refine ⟨c.interval * k, fun i => ?_⟩
    have hwork : p.slowest + (s.ctrls i).work p ≤ work :=
      Finset.single_le_sum (f := fun i => p.slowest + (s.ctrls i).work p)
        (fun _ _ => Nat.zero_le _) (Finset.mem_univ i)
    have hpay : (p.refreshing c + 1) * k ≤ c.interval * k := Nat.mul_le_mul_right k hlt
    rw [Nat.mul_div_cancel_left k c.interval_ne_zero]
    calc p.slowest + (s.ctrls i).work p + p.refreshing c * (k + 1)
        ≤ work + p.refreshing c * (k + 1) := Nat.add_le_add_right hwork _
      _ < (p.refreshing c + 1) * k := by
        rw [Nat.add_mul, Nat.mul_add]
        omega
      _ ≤ c.interval * k := hpay

/-- **Accepted transactions are reported.** Self refresh is off, the delays of the device are
natural numbers that keep the pace `p`, the command queues have room for a command, `read_delay` is
positive, and no two bursts are ready in one cycle when a cycle has two commands. Then from every
state of a run, when no write of a buffer waits for a read that has not been scheduled, all
transactions in flight are reported within quiet cycles, once each: within `read_delay` and one more
than any number `n` of cycles that exceeds what pays for the longest delay, the work that is left
and the refreshes that become due in `n` cycles (`exists_cycles_iff` says when there is one). -/
theorem accepted_are_reported (hoff : c.enableSelfRefresh = false) (hp : c.Paced p)
    (hsize : 0 < c.cmdQueueSize) (hapart : c.enableHbmDualCmd = true → c.BurstsApart)
    (hdelay : 0 < c.readDelay) (h : History s accepted reported)
    (hfluent : ∀ i, (s.ctrls i).Fluent)
    (hn : ∀ i, p.slowest + (s.ctrls i).work p + p.refreshing c * (n / c.interval + 1) < n) :
    ∃ t later, s.cycles (n + (c.readDelay.toNat + 1)) = .ok (t, later) ∧
      (later.map fun x => x.2.arrival : Multiset (Nat × Completion)) = s.inFlight ∧
      t.inFlight = 0 := by
  obtain ⟨t, later, hcycles, ht, -, hidle⟩ :=
    reads_answered hoff hp hsize hapart h hfluent hn
  -- what is done before the clock `t.clk + read_delay` leaves the return queues
  obtain ⟨t', later', hcycles', ht', hclk', hdone⟩ := ht.cycles hoff
    (fun _ u => ∀ i, (u.ctrls i).pendingRdQ = [] ∧
      ∀ x ∈ (u.ctrls i).returnQueue, x.completeCycle ≤ t.clk + c.readDelay.toNat)
    (fun i => ⟨hidle i, by
      have hle := (ht.run i).returned_le hdelay
      rwa [ht.clk i] at hle⟩)
    (fun k u u' _ _ hu htick i => by
      obtain ⟨hnone, hmem⟩ := clockTick_idle htick (hu i).1
      exact ⟨hnone, fun x hx => (hu i).2 x (hmem x hx)⟩)
    (c.readDelay.toNat + 1)
  have hempty (i : Fin c.channels) : (t'.ctrls i).inFlight = 0 := by
    obtain ⟨hnone, hearly⟩ := hdone i
    have hreturned : (t'.ctrls i).returnQueue = [] := by
      refine List.eq_nil_iff_forall_not_mem.mpr fun x hx => ?_
      have hlate := (((ht'.timely hdelay).1 i).returned x hx).2.1
      have hle := hearly x hx
      rw [ht'.clk i] at hlate
      omega
    simp [Controller.inFlight, hnone, hreturned]
  have hnothing : t'.inFlight = 0 := Finset.sum_eq_zero fun i _ => hempty i
  have hall := cycles_add hcycles hcycles'
  have hflight := cycles_inFlight hall
  rw [hnothing, add_zero] at hflight
  exact ⟨t', _, hall, hflight, hnothing⟩

theorem hbm2_paced : Config.hbm2.Paced ⟨36, 48, 14, 260⟩ where
  sameBank t := by cases t <;> decide
  sameBankgroup t := by cases t <;> decide
  sameRank t := by cases t <;> decide
  otherRanks h := absurd h (by decide)
  refresh := by decide
  fourActivations := by decide
  manyActivations := by decide

/-- With the configuration of `main`, a write and four reads, two of them of one row, that came
within two cycles. -/
theorem accepted_are_reported_five : ∃ s : JedecDRAMSystem .hbm2,
    (∃ accepted reported, History s accepted reported ∧ reported = []) ∧
      s.inFlight.card = 5 ∧ ∃ t later, s.cycles 2417 = .ok (t, later) ∧ later.length = 5 ∧
        t.inFlight = 0 := by
  obtain ⟨x, hx, hp⟩ := Reach.of_run record Free ((init : JedecDRAMSystem .hbm2), [], [])
    [some (64, false), some (128, true), none, some (576, false), some (0x4000, false),
      some (0x8000, false)]
    (fun x => (x.2.2 = [] ∧ x.1.inFlight.card = 5) ∧
      ∀ i : Fin 8, (x.1.ctrls i).work ⟨36, 48, 14, 260⟩ ≤ 700 ∧
        (x.1.ctrls i).writeDraining = 0 ∧ (x.1.ctrls i).writeBuffer.length ≤ 1)
    (by decide +kernel)
  obtain ⟨⟨hreported, hcard⟩, hwork⟩ := of_decide_eq_true hp
  have hrefreshing : Pace.refreshing ⟨36, 48, 14, 260⟩ .hbm2 = 1285 := by decide
  have hinterval : Config.hbm2.interval = 3900 := by decide
  have hslowest : Pace.slowest ⟨36, 48, 14, 260⟩ = 260 := by decide
  obtain ⟨t, later, hcycles, hall, hnothing⟩ := accepted_are_reported (n := 2400) rfl hbm2_paced
    (by decide) (fun _ => hbm2_burstsApart) (by decide) (.of_reach hx)
    (fun i _ => by
      obtain ⟨-, hdraining, hbuffer⟩ := hwork i
      exact Or.inr ⟨hdraining, by omega, hbuffer.trans_lt (by decide)⟩)
    (fun i => by
      obtain ⟨hle, -⟩ := hwork i
      rw [hrefreshing, hinterval, hslowest]
      omega)
  refine ⟨x.1, ⟨x.2.1, x.2.2, .of_reach hx, hreported⟩, hcard, t, later, hcycles, ?_, hnothing⟩
  have hlength := congrArg Multiset.card hall
  rw [hcard] at hlength
  simpa using hlength

end JedecDRAMSystem

end NetSim.Memory
