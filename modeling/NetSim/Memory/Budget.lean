import NetSim.Memory.Work

/-!
# A budget of cycles

The delays that have not passed and the work that is left are a budget (`Controller.Budget`). Every
command that is issued is paid from it: what it adds to the delays, and one cycle more, is what it
takes from the work (`Controller.issueCommands_budget`).
-/

namespace NetSim.Memory

open Common Library

variable {c : Config} {p : Pace} {cmd r : Command c} {clk n : Nat}

/-! ## What a ready command tells of its bank -/

namespace ChannelState

variable {s : ChannelState c}

/-- A row is closed for another one. -/
theorem row_ne_of_precharge (hrw : cmd.cmdType.isReadWrite = true)
    (h : s.getReadyCommand cmd clk = .ok (some r)) (hpre : r.cmdType = .precharge) :
    (s.bankStates cmd.bank).state = .opened ∧ cmd.row ≠ (s.bankStates cmd.bank).openRow := by
  obtain ⟨hready, -, -, hsame, -, -⟩ := getReadyCommand_ready h
  have hbank : r.bank = cmd.bank := by rw [hsame (CommandType.isRankCMD_of_isReadWrite hrw)]
  have hopen : (s.bankStates cmd.bank).state = .opened := by
    have hallows := hready.allows r.bank r.concerns_bank
    rw [hbank] at hallows
    simpa [BankState.Allows, hpre] using hallows
  refine ⟨hopen, fun hrow => ?_⟩
  have hreq := BankState.requiredType_hit hrw hopen hrow
  unfold getReadyCommand BankState.getReadyCommand at h
  rw [CommandType.isRankCMD_of_isReadWrite hrw, if_neg Bool.false_ne_true, hreq] at h
  dsimp only at h
  have htype : r.cmdType = cmd.cmdType := by
    split at h
    · cases h
    · cases h
    · rename_i ready hready
      split at hready
      · cases hready
        split at h
        · cases h
        · cases h
          rfl
      · cases hready
  rw [← htype, hpre] at hrw
  cases hrw

/-- All commands for a bank that can be activated ask for it. -/
theorem getReadyCommand_activate {x : Command c} (hrw : cmd.cmdType.isReadWrite = true)
    (h : s.getReadyCommand cmd clk = .ok (some r)) (hact : r.cmdType = .activate)
    (hx : x.cmdType.isReadWrite = true) (hbank : x.bank = cmd.bank) :
    s.getReadyCommand x clk = .ok (some { x with cmdType := .activate }) := by
  obtain ⟨hready, -, -, hsame, -, -⟩ := getReadyCommand_ready h
  have hr : r.bank = x.bank := by
    rw [hsame (CommandType.isRankCMD_of_isReadWrite hrw), hbank]
  have hclosed : (s.bankStates x.bank).state = .closed := by
    have hallows := hready.allows r.bank r.concerns_bank
    rw [hr] at hallows
    simpa [BankState.Allows, hact] using hallows
  have htime : (s.bankStates x.bank).cmdTiming .activate ≤ clk := by
    have htiming := hready.timing r.bank r.concerns_bank
    rwa [hr, hact] at htiming
  have hwindow : s.activationWindowOk x.bank.rank clk = true := by
    have hwindow := hready.window hact
    rwa [hr] at hwindow
  have hreq : (s.bankStates x.bank).requiredType x = .ok .activate := by
    unfold BankState.requiredType
    rcases CommandType.isReadWrite_cases hx with ht | ht | ht | ht <;> simp [ht, hclosed]
  unfold getReadyCommand BankState.getReadyCommand
  rw [CommandType.isRankCMD_of_isReadWrite hx, if_neg Bool.false_ne_true, hreq]
  dsimp only
  rw [if_pos htime]
  dsimp only
  rw [if_neg (by simp [hwindow])]

end ChannelState

namespace Controller

variable {s t u v : Controller c}

/-- The requests are for the refreshes of the policy. -/
theorem OnSchedule.uses (h : OnSchedule s) :
    ∀ ref ∈ s.channelState.refreshQ, c.uses ref.cmdType = true := by
  intro ref href
  have hmem : ref ∈ s.requests := List.mem_append_right _ href
  rw [h.requests] at hmem
  obtain ⟨k, -, rfl⟩ := List.mem_map.mp hmem
  unfold Config.refreshRequest
  cases hpolicy : c.refreshPolicy <;> simp [bareCommand, Config.uses, hpolicy]

theorem Origin.uses (h : Origin s r) (hoff : c.enableSelfRefresh = false) (hs : InStep s)
    (hschedule : OnSchedule s) : c.uses r.cmdType = true := by
  obtain ⟨henter, hexit⟩ :=
    h.no_sref hoff hs hschedule.steady.carried.placed hschedule.steady.awake
  cases hrefresh : r.cmdType.isRefresh with
  | true =>
    obtain ⟨rest, hfront⟩ := h.refresh_front hoff hschedule.steady.carried.placed hrefresh
    exact hschedule.uses r (by rw [hfront]; exact List.mem_cons_self)
  | false =>
    cases htype : r.cmdType <;> simp_all [Config.uses, CommandType.isRefresh]

/-! ## The budget -/

/-- What the argument needs of a state. -/
structure Regular (s : Controller c) : Prop where
  schedule : OnSchedule s
  inStep : InStep s
  blocks : Blocks s
  turn : s.cmdQueue.queueIdx < c.numQueues

/-- The delays that have not passed and the work that is left. -/
def Budget (p : Pace) (s : Controller c) (n : Nat) : Prop :=
  ∃ h, Settled s.channelState h ∧ h - s.clk + s.work p ≤ n

/-- A part of the budget has been used. -/
def Spent (p : Pace) (s : Controller c) (n : Nat) : Prop := ∃ m < n, Budget p s m

theorem Budget.mono {m : Nat} (h : Budget p s m) (hle : m ≤ n) : Budget p s n := by
  obtain ⟨d, hd, hbudget⟩ := h
  exact ⟨d, hd, hbudget.trans hle⟩

theorem Spent.budget (h : Spent p s n) : Budget p s n := by
  obtain ⟨m, hm, hbudget⟩ := h
  exact hbudget.mono hm.le

/-- Less work. -/
theorem Budget.work_le (h : Budget p s n) (hclk : t.clk = s.clk)
    (hstate : t.channelState = s.channelState) (hwork : t.work p ≤ s.work p) : Budget p t n := by
  obtain ⟨d, hd, hbudget⟩ := h
  refine ⟨d, hstate ▸ hd, ?_⟩
  rw [hclk]
  omega

/-- A command is paid from the budget. -/
theorem Budget.issued (hp : c.Paced p) (hr : c.uses r.cmdType = true) (h : Budget p s n)
    (hclk : t.clk = s.clk)
    (hstate : t.channelState = s.channelState)
    (hpay : (t.issued r).work p + (p.of r.cmdType + 1) ≤ s.work p) : Spent p (t.issued r) n := by
  obtain ⟨d, hd, hbudget⟩ := h
  refine ⟨n - 1, by omega, max d (s.clk + p.of r.cmdType), ?_, ?_⟩
  · show Settled (t.channelState.applied r t.clk) _
    rw [hclk, hstate]
    exact hd.applied hp hr
  · show _ - t.clk + _ ≤ _
    rw [hclk]
    omega

/-! ## The commands of a cycle -/

theorem Regular.turned (hoff : c.enableSelfRefresh = false) (h : Regular s) {refs : Finset Nat}
    {isInRef : Bool} {idx : Nat} (hidx : idx < c.numQueues)
    (hblocks : Blocks (s.turned refs isInRef idx)) : Regular (s.turned refs isInRef idx) := by
  have hmove : Move s (s.turned refs isInRef idx) := .turn s refs isInRef idx
  exact ⟨h.schedule.move hoff h.inStep hmove, hmove.inStep h.inStep, hblocks, hidx⟩

/-- A command that has been issued. -/
theorem Regular.issued (hoff : c.enableSelfRefresh = false) (h : Regular s) (horigin : Origin s r)
    (hissue : (s.leaves r).issueCommand r = .ok v) (hblocks : Blocks ((s.leaves r).issued r)) :
    v = (s.leaves r).issued r ∧ Regular v := by
  obtain ⟨rfl, hissuable⟩ := issueCommand_ok hissue
  obtain ⟨q, hq⟩ := s.leaves_eq r
  have hmove : Move s ((s.leaves r).issued r) := by
    rw [hq] at hissuable
    exact .issue horigin ⟨hissuable.read, hissuable.write, hissuable.banks⟩
  refine ⟨rfl, h.schedule.move hoff h.inStep hmove, hmove.inStep h.inStep, hblocks, ?_⟩
  show (s.leaves r).cmdQueue.queueIdx < c.numQueues
  rw [hq]
  exact h.turn

/-- A command that is no refresh leaves the blocked queues alone. -/
theorem Blocks.issued (h : Blocks s) (hr : r.cmdType.isRefresh = false) :
    Blocks ((s.leaves r).issued r) := by
  intro hin
  obtain ⟨q, hq⟩ := s.leaves_eq r
  rw [hq] at hin ⊢
  show ∃ ref rest, s.channelState.refreshQAfter r = ref :: rest ∧ _
  rw [refreshQAfter_of_not_refresh hr]
  exact h hin

theorem Blocks.leaves (h : Blocks s) (r : Command c) : Blocks (s.leaves r) := by
  obtain ⟨q, hq⟩ := s.leaves_eq r
  rw [hq]
  exact h

theorem leaves_of_not_readWrite (h : r.cmdType.isReadWrite = false) : s.leaves r = s := by
  unfold leaves
  rw [h, if_neg Bool.false_ne_true]

/-- The first command for a bank stands behind commands for others. -/
theorem nextOn_eq {i : Nat} {before after : List (Command c)}
    (hqueue : s.cmdQueue.queues i = before ++ cmd :: after)
    (hindex : Config.getQueueIndex cmd.bank = i) (hbefore : ∀ x ∈ before, x.bank ≠ cmd.bank) :
    s.nextOn cmd.bank = some cmd := by
  unfold nextOn
  rw [hindex, hqueue, List.find?_append, List.find?_eq_none.mpr (by simpa using hbefore)]
  simp

/-- What a command of a queue pays. -/
theorem work_queue {i : Nat} {before after : List (Command c)} (hplaced : AllPlaced s)
    (hblocks : Blocks s) (hqueue : s.cmdQueue.queues i = before ++ cmd :: after)
    (hfree : ¬ (s.cmdQueue.isInRef = true ∧ i ∈ s.cmdQueue.refQIndices))
    (hready : s.channelState.getReadyCommand cmd s.clk = .ok (some r))
    (hmay : CommandQueue.mayIssue s.channelState before cmd after r = true)
    (hpassed : ∀ x ∈ before, ∀ y, s.channelState.getReadyCommand x s.clk = .ok (some y) →
      y.cmdType ≠ .activate) (huses : c.uses r.cmdType = true) :
    ((s.leaves r).issued r).work p + (p.of r.cmdType + 1) ≤ s.work p := by
  have hcmd := hplaced i cmd (by rw [hqueue]; simp)
  have hrw := hcmd.isReadWrite
  obtain ⟨hlegal, -, -, hsame, hself, hkind⟩ := ChannelState.getReadyCommand_ready hready
  have hsame := hsame (CommandType.isRankCMD_of_isReadWrite hrw)
  have hbank : r.bank = cmd.bank := by rw [hsame]
  have huntouched : s.Untouched r.bank := by
    refine hblocks.untouched ?_
    rw [hbank, hcmd.index]
    exact hfree
  rcases hkind with hkind | hpre | ⟨-, hact | hkind⟩
  · -- the command of the queue itself
    obtain rfl := hself hkind
    have hpays := work_readWrite (p := p) hplaced (i := i) (r := r) (by rw [hqueue]; simp)
      huntouched
    have hburst : p.of r.cmdType = p.burst := by
      rcases CommandType.isReadWrite_cases hrw with ht | ht | ht | ht <;> rw [ht] <;> rfl
    rwa [hburst]
  · -- the row of the bank is not the one of its first command
    have hleaves : s.leaves r = s := leaves_of_not_readWrite (by rw [hpre]; rfl)
    obtain ⟨hopen, hrow⟩ := ChannelState.row_ne_of_precharge hrw hready hpre
    have hnext : s.nextOn cmd.bank = some cmd := by
      refine nextOn_eq hqueue hcmd.index ?_
      unfold CommandQueue.mayIssue CommandQueue.arbitratePrecharge at hmay
      rw [if_pos hpre] at hmay
      split at hmay
      · cases hmay
      · rename_i hnone
        simpa using hnone
    rw [hleaves, hpre]
    refine work_precharge hpre ?_
    have hmissing : s.rowWork p r.bank = p.row := by
      unfold rowWork
      rw [hbank, hnext]
      dsimp only
      rw [if_pos hopen, if_neg hrow]
    unfold bankWork
    omega
  · have hleaves : s.leaves r = s := leaves_of_not_readWrite (by rw [hact]; rfl)
    have hnext : s.nextOn r.bank = some cmd := by
      rw [hbank]
      refine nextOn_eq hqueue hcmd.index fun x hx hxbank => ?_
      have hxrw := (hplaced i x (by rw [hqueue]; exact List.mem_append_left _ hx)).isReadWrite
      exact hpassed x hx _ (ChannelState.getReadyCommand_activate hrw hready hact hxrw hxbank) rfl
    have hclosed : (s.channelState.bankStates r.bank).state = .closed := by
      simpa [BankState.Allows, hact] using hlegal.allows r.bank r.concerns_bank
    rw [hleaves, hact]
    exact work_activate hact hnext (by rw [hsame]) (by simp [hclosed]) huntouched
  · rw [hkind] at huses
    cases huses

/-- The queues ask for no refresh. -/
theorem not_refresh_of_queue {i : Nat} {x : ChannelState c} (hcmd : Placed i cmd)
    (hready : x.getReadyCommand cmd clk = .ok (some r)) : r.cmdType.isRefresh = false := by
  have hrw := hcmd.isReadWrite
  obtain ⟨-, -, -, -, -, hkind⟩ := ChannelState.getReadyCommand_ready hready
  rcases hkind with hkind | hkind | ⟨-, hkind | hkind⟩
  · rw [hkind]
    rcases CommandType.isReadWrite_cases hrw with ht | ht | ht | ht <;> rw [ht] <;> rfl
  all_goals
    rw [hkind]
    rfl

/-- A command that has left its queue. -/
theorem Regular.leaves (h : Regular s) (horigin : Origin s r) :
    Regular (s.leaves r) ∧ (s.leaves r).work p ≤ s.work p := by
  cases hrw : r.cmdType.isReadWrite with
  | false =>
    rw [leaves_of_not_readWrite hrw]
    exact ⟨h, le_rfl⟩
  | true =>
    obtain ⟨i, before, after, hqueue, -⟩ := horigin.mem_queue h.inStep hrw
    have hmem : r ∈ s.cmdQueue.queues i := by rw [hqueue]; simp
    have hcarried := h.schedule.steady.carried.leaves hmem
    have hblocks := h.blocks.leaves r
    refine ⟨?_, by have := work_leaves (p := p) h.schedule.steady.carried.placed hmem; omega⟩
    obtain ⟨q, hq⟩ := s.leaves_eq r
    rw [hq] at hcarried hblocks ⊢
    exact ⟨⟨⟨hcarried, h.schedule.steady.awake⟩, h.schedule.awake, h.schedule.place,
      h.schedule.requests⟩, ⟨h.inStep.clk, h.inStep.refreshes⟩, hblocks, h.turn⟩

/-- `GetCommandToIssue`: what it returns is paid from the budget when it is issued. -/
theorem takeCommand_budget (hoff : c.enableSelfRefresh = false) (hp : c.Paced p) (hs : Regular s)
    (hbudget : Budget p s n) {answer : Option (Command c)} (h : s.takeCommand = .ok (answer, t)) :
    Regular t ∧ Budget p t n ∧
      ∀ r ∈ answer, ∀ v, t.issueCommand r = .ok v → Regular v ∧ Spent p v n := by
  unfold takeCommand CommandQueue.getCommandToIssue at h
  split at h
  · cases h
  · rename_i q hissue
    cases h
    obtain ⟨idx, hidx, hcases⟩ := CommandQueue.issueFrom_ok hissue
    have hu : Regular (s.turned s.cmdQueue.refQIndices s.cmdQueue.isInRef idx) :=
      hs.turned hoff (hidx hs.turn) hs.blocks
    have hubudget : Budget p (s.turned s.cmdQueue.refQIndices s.cmdQueue.isInRef idx) n := hbudget
    rcases hcases with ⟨rfl, rfl⟩ |
      ⟨r, before, cmd, after, rfl, hqueue, hfree, hready, hmay, hpassed, hleave⟩
    · exact ⟨hu, hubudget, fun r hr => by cases hr⟩
    · rw [hs.inStep.clk] at hready hpassed
      have horigin : Origin (s.turned s.cmdQueue.refQIndices s.cmdQueue.isInRef idx) r :=
        .queue idx before cmd after hqueue hfree hready hmay
      have huses := horigin.uses hoff hu.inStep hu.schedule
      have hrefresh : r.cmdType.isRefresh = false :=
        not_refresh_of_queue (hs.schedule.steady.carried.placed idx cmd (by rw [hqueue]; simp))
          hready
      have hpays := work_queue (p := p) hu.schedule.steady.carried.placed hu.blocks hqueue hfree
        hready hmay
        hpassed huses
      have hleft : { s with cmdQueue := q } =
          (s.turned s.cmdQueue.refQIndices s.cmdQueue.isInRef idx).leaves r := by
        unfold leaves
        split at hleave
        · rename_i hrw
          rw [if_pos hrw, CommandQueue.eraseRWCommand_ok hleave]
          rfl
        · rename_i hrw
          rw [if_neg hrw]
          cases hleave
          rfl
      rw [hleft]
      generalize s.turned s.cmdQueue.refQIndices s.cmdQueue.isInRef idx = u at *
      obtain ⟨q', hq'⟩ := u.leaves_eq r
      have hclk : (u.leaves r).clk = u.clk := by rw [hq']
      have hstate : (u.leaves r).channelState = u.channelState := by rw [hq']
      obtain ⟨hregular, hwork⟩ := hu.leaves (p := p) horigin
      refine ⟨hregular, hubudget.work_le hclk hstate hwork, fun r' hr' v hv => ?_⟩
      cases hr'
      obtain ⟨rfl, hv⟩ := hu.issued hoff horigin hv (hu.blocks.issued hrefresh)
      exact ⟨hv, hubudget.issued hp huses hclk hstate hpays⟩

/-- `FinishRefresh` blocks the queues, and frees them when the refresh itself is ready. -/
theorem finishRefresh_marked {ref : Command c} {answer : Option (Command c)} {q : CommandQueue c}
    (h : s.cmdQueue.finishRefresh s.channelState ref = .ok (answer, q)) :
    (∃ r, answer = some r ∧ r.cmdType.isRefresh = true ∧
      { s with cmdQueue := q } = (s.marked ref).turned ∅ false s.cmdQueue.queueIdx) ∨
    ((∀ r ∈ answer, r.cmdType.isRefresh = false) ∧ { s with cmdQueue := q } = s.marked ref) := by
  have hidx : (if s.cmdQueue.isInRef = true then s.cmdQueue
      else { s.cmdQueue.getRefQIndices ref with isInRef := true }).queueIdx =
      s.cmdQueue.queueIdx := by
    split <;> rfl
  unfold CommandQueue.finishRefresh at h
  dsimp only at h
  split at h
  · cases h
  · cases h
    exact Or.inr ⟨by simp, rfl⟩
  · split at h
    · rename_i hrefresh
      cases h
      refine Or.inl ⟨_, rfl, hrefresh, ?_⟩
      unfold turned marked
      dsimp only
      rw [← hidx]
    · rename_i hrefresh
      cases h
      exact Or.inr ⟨by simpa using hrefresh, rfl⟩

/-- The queues of the banks of a refresh. -/
theorem getRefQIndices_touches {q : CommandQueue c} {ref : Command c}
    (href : ref.cmdType.isRefresh = true) {b : BankId c} (hb : ref.Touches b) :
    Config.getQueueIndex b ∈ (q.getRefQIndices ref).refQIndices := by
  unfold CommandQueue.getRefQIndices
  dsimp only
  refine Finset.mem_union_right _ ?_
  split
  · rename_i htype
    have hrank : b.rank = ref.bank.rank := by
      simpa [Command.Touches, htype, CommandType.isRankCMD] using hb
    cases hq : c.queueStructure with
    | perBank =>
      refine Finset.mem_filter.mpr ⟨Finset.mem_range.mpr (Config.getQueueIndex_lt b), ?_⟩
      rw [Config.getQueueIndex_div hq, hrank]
    | perRank =>
      rw [Finset.mem_singleton]
      unfold Config.getQueueIndex
      rw [hq, ← hrank]
  · rename_i htype
    have htype : ref.cmdType = .refreshBank := by
      simpa [CommandType.isRefresh, htype] using href
    have hbank : b = ref.bank := by
      simpa [Command.Touches, htype, CommandType.isRankCMD] using hb
    rw [hbank]
    exact Finset.mem_singleton_self _

theorem Regular.marked (hoff : c.enableSelfRefresh = false) (h : Regular s) {ref : Command c}
    {rest : List (Command c)} (hfront : s.channelState.refreshQ = ref :: rest) :
    Regular (s.marked ref) := by
  cases hin : s.cmdQueue.isInRef with
  | true =>
    have hsame : s.marked ref = s := by simp [Controller.marked, hin]
    rwa [hsame]
  | false =>
    have href := h.inStep.refreshes ref (by rw [hfront]; exact List.mem_cons_self)
    have hturned : s.marked ref = s.turned (s.cmdQueue.getRefQIndices ref).refQIndices true
        s.cmdQueue.queueIdx := by
      simp [Controller.marked, hin, Controller.turned, CommandQueue.getRefQIndices]
    rw [hturned]
    exact h.turned hoff h.turn fun _ => ⟨ref, rest, hfront, fun b hb =>
      getRefQIndices_touches href hb⟩

/-- A refresh that is ready. -/
theorem Regular.refreshed (hoff : c.enableSelfRefresh = false) (hp : c.Paced p) (hs : Regular s)
    (hbudget : Budget p s n) {rest : List (Command c)}
    (hfront : s.channelState.refreshQ = r :: rest) (hin : s.cmdQueue.isInRef = true)
    (hready : s.channelState.getReadyCommand r s.clk = .ok (some r))
    (hissue : (s.turned ∅ false s.cmdQueue.queueIdx).issueCommand r = .ok v) :
    Regular v ∧ Spent p v n := by
  have hrefresh := hs.inStep.refreshes r (by rw [hfront]; exact List.mem_cons_self)
  have hfreed : Regular (s.turned ∅ false s.cmdQueue.queueIdx) :=
    hs.turned hoff hs.turn (blocks_of_free rfl)
  have horigin : Origin (s.turned ∅ false s.cmdQueue.queueIdx) r :=
    .refresh r rest hfront hready
  have huses := horigin.uses hoff hfreed.inStep hfreed.schedule
  have hleaves : (s.turned ∅ false s.cmdQueue.queueIdx).leaves r =
      s.turned ∅ false s.cmdQueue.queueIdx :=
    leaves_of_not_readWrite (CommandType.isReadWrite_of_isRefresh hrefresh)
  rw [← hleaves] at hissue
  obtain ⟨rfl, hv⟩ := hfreed.issued hoff horigin hissue (by
    rw [hleaves]
    exact blocks_of_free rfl)
  have hprice : p.of r.cmdType = p.refresh := by
    cases htype : r.cmdType <;> rw [htype] at hrefresh <;> cases hrefresh <;> rfl
  rw [hleaves] at hv ⊢
  refine ⟨hv, hbudget.issued hp huses rfl rfl ?_⟩
  rw [hprice]
  exact work_refresh hrefresh hfront hin _

/-- A precharge of a bank that is to be refreshed. -/
theorem Regular.precharged (hoff : c.enableSelfRefresh = false) (hp : c.Paced p) (hs : Regular s)
    (hbudget : Budget p s n) {ref : Command c} {rest : List (Command c)}
    (hfront : s.channelState.refreshQ = ref :: rest) (hblocking : s.blocking = some ref)
    (hready : s.channelState.getReadyCommand ref s.clk = .ok (some r))
    (hpre : r.cmdType = .precharge) (hissue : s.issueCommand r = .ok v) :
    Regular v ∧ Spent p v n := by
  obtain ⟨hlegal, -, hrank, hsame, -, -⟩ := ChannelState.getReadyCommand_ready hready
  have horigin : Origin s r := .refresh ref rest hfront hready
  have huses := horigin.uses hoff hs.inStep hs.schedule
  have htouches : ref.Touches r.bank := by
    unfold Command.Touches
    split
    · exact hrank
    · rename_i hbank
      rw [hsame (by simpa using hbank)]
  have hopen : (s.channelState.bankStates r.bank).state = .opened := by
    simpa [BankState.Allows, hpre] using hlegal.allows r.bank r.concerns_bank
  have hleaves : s.leaves r = s := leaves_of_not_readWrite (by rw [hpre]; rfl)
  rw [← hleaves] at hissue
  obtain ⟨rfl, hv⟩ := hs.issued hoff horigin hissue (hs.blocks.issued (by rw [hpre]; rfl))
  rw [hleaves] at hv ⊢
  refine ⟨hv, hbudget.issued hp huses rfl rfl ?_⟩
  rw [hpre]
  refine work_precharge hpre ?_
  have hclose : s.closeWork p r.bank = p.row := by
    unfold closeWork
    rw [hblocking]
    exact if_pos ⟨htouches, hopen⟩
  unfold bankWork
  omega

/-- What a command for a refresh pays. -/
theorem finishRefresh_budget (hoff : c.enableSelfRefresh = false) (hp : c.Paced p) (hs : Regular s)
    (hbudget : Budget p s n) {ref : Command c} {rest : List (Command c)}
    (hfront : s.channelState.refreshQ = ref :: rest) {q : CommandQueue c}
    (h : s.cmdQueue.finishRefresh s.channelState ref = .ok (some r, q))
    (hissue : issueCommand { s with cmdQueue := q } r = .ok v) : Regular v ∧ Spent p v n := by
  have hready := (finishRefresh_ok h).2
  rw [hs.inStep.clk] at hready
  have href := hs.inStep.refreshes ref (by rw [hfront]; exact List.mem_cons_self)
  have hmarked := hs.marked hoff hfront
  have hmbudget : Budget p (s.marked ref) n := hbudget.work_le rfl rfl (work_marked hfront)
  obtain ⟨-, -, -, -, hself, hkind⟩ := ChannelState.getReadyCommand_ready hready
  rcases finishRefresh_marked h with ⟨r', hr', hrefresh, hq⟩ | ⟨hno, hq⟩
  · cases hr'
    have hr : r = ref := by
      rcases hkind with hkind | hkind | ⟨-, hkind | hkind⟩
      · exact hself hkind
      all_goals
        rw [hkind] at hrefresh
        cases hrefresh
    subst hr
    have hidx : (s.marked r).cmdQueue.queueIdx = s.cmdQueue.queueIdx := by
      unfold marked
      dsimp only
      split <;> rfl
    rw [hq, ← hidx] at hissue
    exact hmarked.refreshed hoff hp hmbudget hfront (s.marked_isInRef r) hready hissue
  · have hpre : r.cmdType = .precharge := by
      rcases hkind with hkind | hkind | ⟨hrw, -⟩
      · have hrefresh := hno r rfl
        rw [hkind, href] at hrefresh
        cases hrefresh
      · exact hkind
      · rw [CommandType.isReadWrite_of_isRefresh href] at hrw
        cases hrw
    rw [hq] at hissue
    exact hmarked.precharged hoff hp hmbudget hfront (marked_blocking hfront) hready hpre hissue

/-- The first command of a cycle. -/
theorem firstCommand_budget (hoff : c.enableSelfRefresh = false) (hp : c.Paced p) (hs : Regular s)
    (hbudget : Budget p s n) {answer : Option (Command c)} (h : s.firstCommand = .ok (answer, t)) :
    (answer = none → Regular t ∧ Budget p t n) ∧
      ∀ r ∈ answer, ∀ v, t.issueCommand r = .ok v → Regular v ∧ Spent p v n := by
  unfold firstCommand at h
  split at h
  · obtain ⟨ht, htbudget, hissue⟩ := takeCommand_budget hoff hp hs hbudget h
    exact ⟨fun _ => ⟨ht, htbudget⟩, hissue⟩
  · rename_i ref rest hfront
    split at h
    · cases h
    · rename_i cmd q hfinish
      cases h
      refine ⟨by simp, fun r hr v hv => ?_⟩
      cases hr
      exact finishRefresh_budget hoff hp hs hbudget hfront hfinish hv
    · rename_i q hfinish
      rcases finishRefresh_marked hfinish with ⟨r, hr, -⟩ | ⟨-, hq⟩
      · cases hr
      · rw [hq] at h
        have hmbudget : Budget p (s.marked ref) n := hbudget.work_le rfl rfl (work_marked hfront)
        obtain ⟨ht, htbudget, hissue⟩ :=
          takeCommand_budget hoff hp (hs.marked hoff hfront) hmbudget h
        exact ⟨fun _ => ⟨ht, htbudget⟩, hissue⟩

/-- The second command of a cycle. -/
theorem secondCommand_budget (hoff : c.enableSelfRefresh = false) (hp : c.Paced p)
    (hs : Regular s) (hbudget : Budget p s n) {first : Command c}
    (h : s.secondCommand first = .ok t) : Regular t ∧ Budget p t n := by
  unfold secondCommand at h
  split at h
  · cases h
  · rename_i u htake
    cases h
    obtain ⟨ht, htbudget, -⟩ := takeCommand_budget hoff hp hs hbudget htake
    exact ⟨ht, htbudget⟩
  · rename_i second u htake
    obtain ⟨hu, hubudget, hissue⟩ := takeCommand_budget hoff hp hs hbudget htake
    split at h
    · obtain ⟨ht, hspent⟩ := hissue second rfl t h
      exact ⟨ht, hspent.budget⟩
    · cases h
      exact ⟨hu, hubudget⟩

/-- The commands of a cycle. -/
theorem issueCommands_budget (hoff : c.enableSelfRefresh = false) (hp : c.Paced p)
    (hs : Regular s) (hbudget : Budget p s n) {cmdIssued : Bool}
    (h : s.issueCommands = .ok (cmdIssued, t)) :
    Regular t ∧
      (cmdIssued = true ∧ Spent p t n ∨ s.firstCommand = .ok (none, t) ∧ Budget p t n) := by
  unfold issueCommands at h
  split at h
  · cases h
  · rename_i u hfirst
    cases h
    obtain ⟨hnone, -⟩ := firstCommand_budget hoff hp hs hbudget hfirst
    obtain ⟨ht, htbudget⟩ := hnone rfl
    exact ⟨ht, Or.inr ⟨hfirst, htbudget⟩⟩
  · rename_i cmd u hfirst
    obtain ⟨-, hsome⟩ := firstCommand_budget hoff hp hs hbudget hfirst
    split at h
    · cases h
    · rename_i v hissue
      obtain ⟨hv, m, hm, hvbudget⟩ := hsome cmd rfl v hissue
      split at h
      · split at h
        · cases h
        · rename_i w hsecond
          cases h
          obtain ⟨ht, htbudget⟩ := secondCommand_budget hoff hp hv hvbudget hsecond
          exact ⟨ht, Or.inl ⟨rfl, m, hm, htbudget⟩⟩
      · cases h
        exact ⟨hv, Or.inl ⟨rfl, m, hm, hvbudget⟩⟩

end Controller

end NetSim.Memory
