import NetSim.Memory.Carriers

/-!
# A controller does not end the program

Without self refresh every bank is open or closed, so `GetReadyCommand` has an answer for all
commands that wait and the banks take what is issued; and the carriers are about pending
transactions, so `IssueCommand` and `EraseRWCommand` find them. Hence every cycle of a run returns
(`controller_never_exits`).
-/

namespace NetSim.Memory

open Common Library

variable {c : Config} {cmd r : Command c} {clk : Nat}

/-- No bank refreshes itself. -/
def ChannelState.Awake (s : ChannelState c) : Prop := ∀ b, (s.bankStates b).state ≠ .sref

/-- What waits in a command queue or for a refresh. -/
def Queued (cmd : Command c) : Prop :=
  cmd.cmdType.isReadWrite = true ∨ cmd.cmdType.isRefresh = true

namespace ChannelState

variable {s : ChannelState c}

theorem readyInRank_returns (hs : s.Awake) (hcmd : Queued cmd) (bs : List (BankId c))
    (numReady : Nat) (last : Option (Command c)) :
    ∃ answer, s.readyInRank cmd clk bs numReady last = .ok answer := by
  induction bs generalizing numReady last with
  | nil => exact ⟨_, rfl⟩
  | cons b bs ih =>
    obtain ⟨answer, hanswer⟩ := BankState.getReadyCommand_returns (hs b) hcmd clk
    unfold readyInRank
    rw [hanswer]
    cases answer with
    | none => exact ih numReady none
    | some ready =>
      dsimp only
      split
      · exact ⟨_, rfl⟩
      · exact ih (numReady + 1) (some ready)

theorem getReadyCommand_returns (hs : s.Awake) (hcmd : Queued cmd) (clk : Nat) :
    ∃ answer, s.getReadyCommand cmd clk = .ok answer := by
  unfold getReadyCommand
  split
  · exact readyInRank_returns hs hcmd _ _ _
  · obtain ⟨answer, hanswer⟩ := BankState.getReadyCommand_returns (hs cmd.bank) hcmd clk
    rw [hanswer]
    cases answer with
    | none => exact ⟨_, rfl⟩
    | some ready =>
      dsimp only
      split
      · exact ⟨_, rfl⟩
      · exact ⟨_, rfl⟩

theorem Awake.applied (hs : s.Awake) (hr : r.cmdType ≠ .srefEnter) : (s.applied r clk).Awake := by
  intro b
  show (BankState.updateTimings _ _ _).state ≠ _
  rw [BankState.updateTimings_state]
  split
  · have hb := hs b
    unfold BankState.after
    cases ht : r.cmdType <;> simp_all
  · exact hs b

end ChannelState

namespace CommandQueue

variable {s : ChannelState c} {q : CommandQueue c}

theorem firstReadyFrom_returns (hs : s.Awake) (clk : Nat) {queue : List (Command c)}
    (hqueue : ∀ cmd ∈ queue, Queued cmd) (before : List (Command c)) :
    ∃ answer, firstReadyFrom s clk before queue = .ok answer := by
  induction queue generalizing before with
  | nil => exact ⟨_, rfl⟩
  | cons cmd after ih =>
    have hrest := ih fun x hx => hqueue x (List.mem_cons_of_mem _ hx)
    obtain ⟨answer, hanswer⟩ :=
      ChannelState.getReadyCommand_returns hs (hqueue cmd List.mem_cons_self) clk
    unfold firstReadyFrom
    rw [hanswer]
    cases answer with
    | none => exact hrest _
    | some ready =>
      dsimp only
      split
      · exact ⟨_, rfl⟩
      · exact hrest _

/-- `EraseRWCommand` finds a command of a queue. -/
theorem eraseRWCommand_returns {i : Nat} (hr : r ∈ q.queues i)
    (hplaced : Controller.Placed i r) : ∃ q', q.eraseRWCommand r = .ok q' := by
  unfold eraseRWCommand
  dsimp only
  rw [hplaced.index, if_pos]
  · exact ⟨_, rfl⟩
  · exact List.any_eq_true.mpr ⟨r, hr, by simp⟩

theorem issueFrom_returns (hs : s.Awake)
    (hq : ∀ i, ∀ cmd ∈ q.queues i, Controller.Placed i cmd) (fuel : Nat) :
    ∃ answer, issueFrom s fuel q = .ok answer := by
  induction fuel generalizing q with
  | zero => exact ⟨_, rfl⟩
  | succ fuel ih =>
    have hrest : ∃ answer, issueFrom s fuel q.getNextQueue = .ok answer := ih hq
    obtain ⟨answer, hanswer⟩ := firstReadyFrom_returns hs q.clk
      (fun cmd hcmd => Or.inl (hq q.getNextQueue.queueIdx cmd hcmd).isReadWrite) []
    unfold issueFrom
    dsimp only
    split
    · exact hrest
    · have hfirst : q.getNextQueue.getFirstReadyInQueue s
          (q.getNextQueue.queues q.getNextQueue.queueIdx) = .ok answer := hanswer
      rw [hfirst]
      cases answer with
      | none => exact hrest
      | some cmd =>
        dsimp only
        split
        · rename_i hrw
          obtain ⟨mid, x, after, hqueue, hready, -⟩ := firstReadyFrom_some hanswer
          -- a read or a write is the queued command itself
          obtain ⟨-, -, -, -, hself, hkind⟩ := ChannelState.getReadyCommand_ready hready
          have htype : cmd.cmdType = x.cmdType := by
            rcases hkind with hkind | hkind | ⟨-, hkind | hkind⟩
            · exact hkind
            all_goals
              rw [hkind] at hrw
              cases hrw
          obtain rfl := hself htype
          have hmem : cmd ∈ q.queues q.getNextQueue.queueIdx := by
            rw [hqueue]
            simp
          obtain ⟨q', hq'⟩ :=
            eraseRWCommand_returns (q := q.getNextQueue) hmem (hq _ cmd hmem)
          rw [hq']
          exact ⟨_, rfl⟩
        · exact ⟨_, rfl⟩

end CommandQueue

namespace Controller

variable {s s' : Controller c}

/-- The commands of a controller neither start nor end a self refresh. -/
theorem Origin.no_sref (h : Origin s r) (hoff : c.enableSelfRefresh = false) (hs : InStep s)
    (hplaced : AllPlaced s) (hawake : s.channelState.Awake) :
    r.cmdType ≠ .srefEnter ∧ r.cmdType ≠ .srefExit := by
  have hexit : r.cmdType ≠ .srefExit := by
    intro hexit
    have hallows := h.ready.allows r.bank (by simp [Command.Concerns, hexit])
    simp only [BankState.Allows, hexit] at hallows
    exact hawake r.bank hallows
  refine ⟨?_, hexit⟩
  intro henter
  have hcases {cmd : Command c} (hcmd : Queued cmd)
      (hready : s.channelState.getReadyCommand cmd s.clk = .ok (some r)) : False := by
    obtain ⟨-, -, -, -, -, hkind⟩ := ChannelState.getReadyCommand_ready hready
    rw [henter] at hkind
    rcases hkind with hkind | hkind | ⟨-, hkind | hkind⟩
    · unfold Queued at hcmd
      rw [← hkind] at hcmd
      rcases hcmd with hcmd | hcmd <;> cases hcmd
    all_goals cases hkind
  cases h with
  | refresh ref rest hfront hready =>
    exact hcases (Or.inr (hs.refreshes ref (by rw [hfront]; exact List.mem_cons_self))) hready
  | queue i before cmd after hqueue hfree hready hmay =>
    exact hcases (Or.inl (hplaced i cmd (by rw [hqueue]; simp)).isReadWrite) hready
  | power cmd henable => simp [hoff] at henable

/-- What the cycles of a controller rely on when self refresh is off. -/
structure Steady (s : Controller c) : Prop where
  carried : Carried s
  awake : s.channelState.Awake

theorem Steady.move (hoff : c.enableSelfRefresh = false) (h : Steady s) (hs : InStep s)
    (hmove : Move s s') : Steady s' := by
  refine ⟨h.carried.move hs hmove, ?_⟩
  cases hmove with
  | due | turn | idle | drain | tick => exact h.awake
  | @issue r horigin hissue =>
    obtain ⟨henter, -⟩ := horigin.no_sref hoff hs h.carried.placed h.awake
    obtain ⟨q, hq⟩ := s.leaves_eq r
    rw [hq]
    exact h.awake.applied henter
  | @drop r =>
    obtain ⟨q, hq⟩ := s.leaves_eq r
    rw [hq]
    exact h.awake
  | @schedule src => cases src <;> exact h.awake

theorem Steady.moves (hoff : c.enableSelfRefresh = false) (h : Steady s) (hs : InStep s)
    (hmoves : Moves s s') : Steady s' :=
  hmoves.keeps Steady (fun _ _ hs h hmove => h.move hoff hs hmove) hs h

/-- A command that has left its queue is issued. -/
theorem Origin.issues (h : Origin s r) (hoff : c.enableSelfRefresh = false) (hs : InStep s)
    (hsteady : Steady s) : ∃ s', (s.leaves r).issueCommand r = .ok s' := by
  obtain ⟨q, hq⟩ := s.leaves_eq r
  obtain ⟨-, hexit⟩ := h.no_sref hoff hs hsteady.carried.placed hsteady.awake
  have hpending (hrw : r.cmdType.isReadWrite = true) :
      countAddr r.hexAddr (s.pending r.cmdType.isWrite) ≠ 0 := by
    obtain ⟨i, before, after, hqueue, -⟩ := h.mem_queue hs hrw
    have hpos := carriers_pos hsteady.carried.placed (i := i) (r := r) (by rw [hqueue]; simp)
    have hle := hsteady.carried.pending r.hexAddr r.cmdType.isWrite
    omega
  refine ⟨_, issueCommand_of_issuable ?_ hexit ?_ ?_⟩
  · rw [hq]
    exact h.ready
  · intro hread
    have hwrite : r.cmdType.isWrite = false := by
      cases hw : r.cmdType.isWrite with
      | false => rfl
      | true => simp [CommandType.isRead_of_isWrite hw] at hread
    have hcount := hpending (by simp [CommandType.isReadWrite, hread])
    rw [hwrite] at hcount
    rw [hq]
    exact hcount
  · intro hwrite
    have hcount := hpending (by simp [CommandType.isReadWrite, hwrite])
    rw [hwrite] at hcount
    rw [hq]
    exact hcount

theorem takeCommand_returns (h : Steady s) : ∃ answer, s.takeCommand = .ok answer := by
  obtain ⟨⟨cmd, q⟩, hq⟩ := CommandQueue.issueFrom_returns h.awake h.carried.placed c.numQueues
  unfold takeCommand CommandQueue.getCommandToIssue
  rw [hq]
  exact ⟨_, rfl⟩

theorem firstCommand_returns (h : Steady s) (hs : InStep s) :
    ∃ answer, s.firstCommand = .ok answer := by
  unfold firstCommand
  split
  · exact takeCommand_returns h
  · rename_i ref rest hfront
    have href := hs.refreshes ref (by rw [hfront]; exact List.mem_cons_self)
    have hfinish : ∃ answer, s.cmdQueue.finishRefresh s.channelState ref = .ok answer := by
      unfold CommandQueue.finishRefresh
      dsimp only
      obtain ⟨answer, hanswer⟩ := ChannelState.getReadyCommand_returns h.awake (Or.inr href)
        (CommandQueue.clk (if s.cmdQueue.isInRef = true then s.cmdQueue
          else { s.cmdQueue.getRefQIndices ref with isInRef := true }))
      rw [hanswer]
      cases answer with
      | none => exact ⟨_, rfl⟩
      | some cmd =>
        dsimp only
        split
        · exact ⟨_, rfl⟩
        · exact ⟨_, rfl⟩
    obtain ⟨⟨answer, q⟩, hq⟩ := hfinish
    rw [hq]
    cases answer with
    | some cmd => exact ⟨_, rfl⟩
    | none =>
      obtain ⟨⟨refs, isInRef, hturn⟩, -⟩ := finishRefresh_ok hq
      dsimp only
      rw [hturn]
      exact takeCommand_returns ⟨h.carried.same ⟨rfl, rfl, rfl⟩, h.awake⟩

theorem secondCommand_returns (hoff : c.enableSelfRefresh = false) (h : Steady s) (hs : InStep s)
    (first : Command c) : ∃ s', s.secondCommand first = .ok s' := by
  obtain ⟨⟨answer, t⟩, htake⟩ := takeCommand_returns h
  unfold secondCommand
  rw [htake]
  cases answer with
  | none => exact ⟨_, rfl⟩
  | some second =>
    dsimp only
    split
    · obtain ⟨refs, isInRef, idx, ⟨hnone, -⟩ | ⟨r, hr, horigin, rfl⟩⟩ :=
        takeCommand_moves hs.clk htake
      · cases hnone
      · cases hr
        have hmove : Move s (s.turned refs isInRef idx) := .turn s refs isInRef idx
        exact horigin.issues hoff (hmove.inStep hs) (h.move hoff hs hmove)
    · exact ⟨_, rfl⟩

theorem issueCommands_returns (hoff : c.enableSelfRefresh = false) (h : Steady s)
    (hs : InStep s) : ∃ answer, s.issueCommands = .ok answer := by
  obtain ⟨⟨answer, t⟩, hfirst⟩ := firstCommand_returns h hs
  unfold issueCommands
  rw [hfirst]
  cases answer with
  | none => exact ⟨_, rfl⟩
  | some cmd =>
    obtain ⟨u, hmoves, -, ⟨hnone, -⟩ | ⟨r, hr, horigin, rfl⟩⟩ := firstCommand_moves hs hfirst
    · cases hnone
    · cases hr
      have husteady := h.moves hoff hs hmoves
      have huinStep := hmoves.inStep hs
      obtain ⟨v, hissue⟩ := horigin.issues hoff huinStep husteady
      dsimp only
      rw [hissue]
      dsimp only
      split
      · obtain ⟨rfl, hissuable⟩ := issueCommand_ok hissue
        have hmove : Move u ((u.leaves cmd).issued cmd) := by
          obtain ⟨q, hq⟩ := u.leaves_eq cmd
          rw [hq] at hissuable
          exact .issue horigin ⟨hissuable.read, hissuable.write, hissuable.banks⟩
        obtain ⟨w, hsecond⟩ := secondCommand_returns hoff (husteady.move hoff huinStep hmove)
          (hmove.inStep huinStep) cmd
        rw [hsecond]
        exact ⟨_, rfl⟩
      · exact ⟨_, rfl⟩

/-- A cycle from a state of the invariant returns. -/
theorem Steady.cycle_returns (hoff : c.enableSelfRefresh = false) (h : Steady s)
    (hs : InStep s) : ∃ s', s.clockTick = .ok s' := by
  have hfirst := s.refresh_clockTick_move
  obtain ⟨⟨cmdIssued, t⟩, hissue⟩ :=
    issueCommands_returns hoff (h.move hoff hs hfirst) (hfirst.inStep hs)
  rw [clockTick_eq]
  unfold issuePhase
  rw [hissue]
  simp [hoff, Except.map]

theorem Run.steady (hoff : c.enableSelfRefresh = false) (h : Run s) : Steady s ∧ InStep s := by
  refine h.invariant Steady ⟨carried_init, fun b => ?_⟩ ?_ ?_ ?_
  · simp [init, ChannelState.init, BankState.init]
  · intro s s' hs hsteady hmove
    exact hsteady.move hoff hs hmove
  · intro s addr isWrite s' hsteady _ hadded
    obtain ⟨-, hstate, -, -, -⟩ := hadded.frame
    refine ⟨hsteady.carried.added hadded, ?_⟩
    rw [hstate]
    exact hsteady.awake
  · intro s before t after hsteady _
    exact ⟨hsteady.carried.same ⟨rfl, rfl, rfl⟩, hsteady.awake⟩

end Controller

/-- With self refresh off no cycle of a controller ends the program, whatever transactions it has
accepted before: a command is always legal for its banks, the read or write that is issued is
pending, and it is found in its queue. -/
theorem controller_never_exits (hoff : c.enableSelfRefresh = false) {s : Controller c}
    (h : Controller.Run s) : ∃ s', s.clockTick = .ok s' := by
  obtain ⟨hsteady, hs⟩ := h.steady hoff
  exact hsteady.cycle_returns hoff hs

end NetSim.Memory
