import NetSim.Memory.Cycle
import NetSim.Memory.Ready
import Mathlib.Logic.Relation

/-!
# The moves of a controller

A cycle of a controller is a sequence of moves (`clockTick_moves`): a refresh becomes due, a queue
gets its turn, a command that is ready is issued or dropped, a transaction goes to a command queue,
the clock advances.
-/

namespace NetSim.Memory

open Common

variable {c : Config}

/-- The queues without the command `r`. -/
def CommandQueue.erased (q : CommandQueue c) (r : Command c) : CommandQueue c :=
  let i := Config.getQueueIndex r.bank
  let queue := (q.queues i).eraseP fun x => r.hexAddr = x.hexAddr && r.cmdType = x.cmdType
  { q with queues := Function.update q.queues i queue }

namespace Controller

/-! ## The effects -/

/-- A read or a write has left its queue. -/
def leaves (s : Controller c) (r : Command c) : Controller c :=
  if r.cmdType.isReadWrite then { s with cmdQueue := s.cmdQueue.erased r } else s

/-- The transactions that a command completes. -/
def completes (s : Controller c) (r : Command c) : List Transaction :=
  if r.cmdType.isRead then
    (s.pendingRdQ.filter fun t => t.addr = r.hexAddr).map fun t =>
      { t with completeCycle := addDelay s.clk c.readDelay }
  else []

/-- A command has been issued. -/
def issued (s : Controller c) (r : Command c) : Controller c :=
  { s with
    cmdTrace := ⟨s.clk, r⟩ :: s.cmdTrace
    channelState := s.channelState.applied r s.clk
    returnQueue := s.returnQueue ++ s.completes r
    pendingRdQ :=
      if r.cmdType.isRead then s.pendingRdQ.filter fun t => !decide (t.addr = r.hexAddr)
      else s.pendingRdQ
    pendingWrQ :=
      if r.cmdType.isWrite then s.pendingWrQ.eraseP fun t => t.addr = r.hexAddr
      else s.pendingWrQ }

/-- The transaction `t` has gone to its command queue. -/
def scheduled (s : Controller c) (src : Source) (before : List Transaction) (t : Transaction)
    (after : List Transaction) : Controller c :=
  { s with cmdQueue := (s.cmdQueue.addCommand (transToCommand t.addr t.isWrite)).2 }.setQueue
    (before ++ after) src

/-- A queue has its turn, and the marks of a refresh have changed. -/
def turned (s : Controller c) (refs : Finset Nat) (isInRef : Bool) (idx : Nat) : Controller c :=
  { s with
    cmdQueue := { s.cmdQueue with refQIndices := refs, isInRef := isInRef, queueIdx := idx } }

/-- Refreshes have become due. -/
def due (s : Controller c) (refresh : Refresh c) (new : List (Command c)) : Controller c :=
  { s with
    refresh := refresh
    channelState := { s.channelState with refreshQ := s.channelState.refreshQ ++ new } }

/-- Where the command of a cycle comes from. -/
inductive Origin (s : Controller c) (r : Command c) : Prop
  /-- The refresh at the front of its queue, or a command that it needs first. -/
  | refresh (ref : Command c) (rest : List (Command c))
      (hfront : s.channelState.refreshQ = ref :: rest)
      (hready : s.channelState.getReadyCommand ref s.clk = .ok (some r))
  /-- A command of a queue that no refresh blocks, or one that it needs first. -/
  | queue (i : Nat) (before : List (Command c)) (cmd : Command c) (after : List (Command c))
      (hqueue : s.cmdQueue.queues i = before ++ cmd :: after)
      (hfree : ¬ (s.cmdQueue.isInRef = true ∧ i ∈ s.cmdQueue.refQIndices))
      (hready : s.channelState.getReadyCommand cmd s.clk = .ok (some r))
      (hmay : CommandQueue.mayIssue s.channelState before cmd after r = true)
  /-- The self refresh of an idle rank. -/
  | power (cmd : Command c) (henable : c.enableSelfRefresh = true)
      (hcmd : cmd.cmdType = .srefEnter ∨ cmd.cmdType = .srefExit)
      (hready : s.channelState.getReadyCommand cmd s.clk = .ok (some r))

/-- The tests that `IssueCommand` makes. -/
structure Issuable (s : Controller c) (r : Command c) : Prop where
  read : r.cmdType.isRead = true → countAddr r.hexAddr s.pendingRdQ ≠ 0
  write : r.cmdType.isWrite = true → countAddr r.hexAddr s.pendingWrQ ≠ 0
  banks : ∀ b, r.Touches b → ∃ x, (s.channelState.bankStates b).updateState r = .ok x

/-- What happens inside a cycle. -/
inductive Move : Controller c → Controller c → Prop
  | due (s : Controller c) (new : List (Command c))
      (hnew : ∀ cmd ∈ new, cmd.cmdType.isRefresh = true)
      (hdue : (s.refresh.clockTick s.channelState).2 =
        { s.channelState with refreshQ := s.channelState.refreshQ ++ new }) :
      Move s (s.due (s.refresh.clockTick s.channelState).1 new)
  | turn (s : Controller c) (refs : Finset Nat) (isInRef : Bool) (idx : Nat) :
      Move s (s.turned refs isInRef idx)
  | issue {s : Controller c} {r : Command c} (horigin : Origin s r) (hissue : Issuable s r) :
      Move s ((s.leaves r).issued r)
  -- the second of two reads or writes in a cycle
  | drop {s : Controller c} {r first : Command c} (horigin : Origin s r)
      (hrw : r.cmdType.isReadWrite = true) (hdual : c.enableHbmDualCmd = true)
      (hfirst : s.cmdTrace.head? = some ⟨s.clk, first⟩) (hkind : first.cmdType.isReadWrite = true) :
      Move s (s.leaves r)
  | idle (s : Controller c) (idleCycles : Fin c.ranks → Nat) :
      Move s { s with channelState := { s.channelState with rankIdleCycles := idleCycles } }
  | drain (s : Controller c) (n : Int) : Move s { s with writeDraining := n }
  | schedule {s : Controller c} {src : Source} {before : List Transaction} {t : Transaction}
      {after : List Transaction} (hqueue : s.queue src = before ++ t :: after)
      (hsrc : src = .unified ↔ c.unifiedQueue = true)
      (haccept : s.cmdQueue.willAcceptCommand (c.addressMapping t.addr).bank = true)
      (hfirst : ∀ x ∈ before,
        s.cmdQueue.willAcceptCommand (c.addressMapping x.addr).bank = false)
      (hwait : c.unifiedQueue = false → t.isWrite = true → countAddr t.addr s.pendingRdQ = 0) :
      Move s (s.scheduled src before t after)
  | tick (s : Controller c) :
      Move s { s with clk := s.clk + 1, cmdQueue := s.cmdQueue.clockTick }

/-- A sequence of moves. -/
def Moves : Controller c → Controller c → Prop := Relation.ReflTransGen Move

variable {s s' : Controller c} {r : Command c}

theorem Origin.ready (h : Origin s r) : Ready s.channelState s.clk r := by
  cases h with
  | refresh _ _ _ hready => exact (ChannelState.getReadyCommand_ready hready).1
  | queue _ _ _ _ _ _ hready _ => exact (ChannelState.getReadyCommand_ready hready).1
  | power _ _ _ hready => exact (ChannelState.getReadyCommand_ready hready).1

/-! ## The functions of a cycle as moves -/

theorem issueCommand_ok (h : s.issueCommand r = .ok s') : s' = s.issued r ∧ Issuable s r := by
  unfold issueCommand at h
  dsimp only at h
  split at h
  · cases h
  · rename_i t ht
    split at h
    · cases h
    · rename_i channelState hstate
      cases h
      unfold updatePending at ht
      dsimp only at ht
      by_cases hread : r.cmdType.isRead = true
      · have hwrite : r.cmdType.isWrite = false := by
          cases hw : r.cmdType.isWrite with
          | false => rfl
          | true => simp [CommandType.isRead_of_isWrite hw] at hread
        rw [if_pos hread] at ht
        split at ht
        · cases ht
        · rename_i hcount
          cases ht
          obtain ⟨rfl, hbanks⟩ := ChannelState.updateTimingAndStates_ok hstate
          refine ⟨?_, fun _ => hcount, by simp [hwrite], hbanks⟩
          simp [issued, completes, hread, hwrite]
      · rw [if_neg hread] at ht
        split at ht
        · rename_i hwrite
          split at ht
          · cases ht
          · rename_i hcount
            cases ht
            obtain ⟨rfl, hbanks⟩ := ChannelState.updateTimingAndStates_ok hstate
            refine ⟨?_, fun hr => absurd hr hread, fun _ => hcount, hbanks⟩
            simp [issued, completes, hread, hwrite]
        · rename_i hwrite
          cases ht
          obtain ⟨rfl, hbanks⟩ := ChannelState.updateTimingAndStates_ok hstate
          refine ⟨?_, fun hr => absurd hr hread, fun hw => absurd hw hwrite, hbanks⟩
          simp [issued, completes, hread, hwrite]

/-- `IssueCommand` returns for a command that is ready and whose transaction is pending. -/
theorem issueCommand_of_issuable (hready : Ready s.channelState s.clk r)
    (hexit : r.cmdType ≠ .srefExit)
    (hread : r.cmdType.isRead = true → countAddr r.hexAddr s.pendingRdQ ≠ 0)
    (hwrite : r.cmdType.isWrite = true → countAddr r.hexAddr s.pendingWrQ ≠ 0) :
    s.issueCommand r = .ok (s.issued r) := by
  have hstate := ChannelState.updateTimingAndStates_of_ready hready hexit
  unfold issueCommand
  dsimp only
  by_cases hr : r.cmdType.isRead = true
  · have hw : r.cmdType.isWrite = false := by
      cases hw : r.cmdType.isWrite with
      | false => rfl
      | true => simp [CommandType.isRead_of_isWrite hw] at hr
    simp [updatePending, hr, hw, hread hr, hstate, issued, completes]
  · by_cases hw : r.cmdType.isWrite = true
    · simp [updatePending, hr, hw, hwrite hw, hstate, issued, completes]
    · simp [updatePending, hr, hw, hstate, issued, completes]

end Controller

/-! ## The command queues -/

namespace CommandQueue

variable {c : Config} {s : ChannelState c} {q q' : CommandQueue c} {r : Command c} {clk : Nat}

/-- The first command of a queue that is ready and may be issued. As an activation may always be
issued, no command before it needs one that is ready. -/
theorem firstReadyFrom_some {before queue : List (Command c)}
    (h : firstReadyFrom s clk before queue = .ok (some r)) :
    ∃ mid cmd after, queue = mid ++ cmd :: after ∧
      s.getReadyCommand cmd clk = .ok (some r) ∧ mayIssue s (before ++ mid) cmd after r = true ∧
      ∀ x ∈ mid, ∀ y, s.getReadyCommand x clk = .ok (some y) → y.cmdType ≠ .activate := by
  induction queue generalizing before with
  | nil => cases h
  | cons cmd after ih =>
    -- a command that is passed is the last of the commands before the next one
    have hpass (h : firstReadyFrom s clk (before ++ [cmd]) after = .ok (some r))
        (hcmd : ∀ y, s.getReadyCommand cmd clk = .ok (some y) → y.cmdType ≠ .activate) :
        ∃ mid cmd' after', cmd :: after = mid ++ cmd' :: after' ∧
          s.getReadyCommand cmd' clk = .ok (some r) ∧
          mayIssue s (before ++ mid) cmd' after' r = true ∧
          ∀ x ∈ mid, ∀ y, s.getReadyCommand x clk = .ok (some y) → y.cmdType ≠ .activate := by
      obtain ⟨mid, cmd', after', rfl, hready, hmay, hpassed⟩ := ih h
      refine ⟨cmd :: mid, cmd', after', rfl, hready, ?_, fun x hx => ?_⟩
      · rwa [List.append_assoc] at hmay
      · rcases List.mem_cons.mp hx with rfl | hx
        · exact hcmd
        · exact hpassed x hx
    unfold firstReadyFrom at h
    split at h
    · cases h
    · rename_i hready
      exact hpass h fun y hy => by simp [hready] at hy
    · rename_i ready hready
      split at h
      · rename_i hmay
        cases h
        refine ⟨[], cmd, after, rfl, hready, ?_, by simp⟩
        rwa [List.append_nil]
      · rename_i hmay
        refine hpass h fun y hy hact => hmay ?_
        rw [hready] at hy
        cases hy
        simp [mayIssue, hact, CommandType.isWrite]

theorem eraseRWCommand_ok (h : q.eraseRWCommand r = .ok q') : q' = q.erased r := by
  unfold eraseRWCommand at h
  dsimp only at h
  split at h
  · cases h
    rfl
  · cases h

/-- `GetCommandToIssue` stops at a queue, and takes a read or a write from it. -/
theorem issueFrom_ok {fuel : Nat} {answer : Option (Command c)}
    (h : issueFrom s fuel q = .ok (answer, q')) :
    ∃ idx, (q.queueIdx < c.numQueues → idx < c.numQueues) ∧
      ((answer = none ∧ q' = { q with queueIdx := idx }) ∨
      ∃ r before cmd after, answer = some r ∧ q.queues idx = before ++ cmd :: after ∧
        ¬ (q.isInRef = true ∧ idx ∈ q.refQIndices) ∧
        s.getReadyCommand cmd q.clk = .ok (some r) ∧ mayIssue s before cmd after r = true ∧
        (∀ x ∈ before, ∀ y, s.getReadyCommand x q.clk = .ok (some y) → y.cmdType ≠ .activate) ∧
        (if r.cmdType.isReadWrite then
            { q with queueIdx := idx }.eraseRWCommand r
          else .ok { q with queueIdx := idx }) = .ok q') := by
  induction fuel generalizing q with
  | zero =>
    cases h
    exact ⟨q'.queueIdx, id, Or.inl ⟨rfl, rfl⟩⟩
  | succ fuel ih =>
    -- the next queue, for which the rest of the loop or this turn decides
    unfold issueFrom at h
    dsimp only at h
    have hbound (hidx : q.queueIdx < c.numQueues) : q.getNextQueue.queueIdx < c.numQueues := by
      show (if q.queueIdx + 1 = c.numQueues then 0 else q.queueIdx + 1) < c.numQueues
      split <;> omega
    have hrest (h : issueFrom s fuel q.getNextQueue = .ok (answer, q')) := ih h
    split at h
    · obtain ⟨idx, hlt, hidx⟩ := hrest h
      exact ⟨idx, fun h => hlt (hbound h), hidx⟩
    · rename_i hfree
      split at h
      · cases h
      · obtain ⟨idx, hlt, hidx⟩ := hrest h
        exact ⟨idx, fun h => hlt (hbound h), hidx⟩
      · rename_i r hfirst
        obtain ⟨before, cmd, after, hqueue, hready, hmay, hpassed⟩ := firstReadyFrom_some hfirst
        refine ⟨q.getNextQueue.queueIdx, hbound, Or.inr ⟨r, before, cmd, after, ?_, hqueue, hfree,
          hready, hmay, hpassed, ?_⟩⟩
        · split at h
          · split at h
            · cases h
            · cases h
              rfl
          · cases h
            rfl
        · split at h
          · rename_i hrw
            rw [if_pos hrw]
            split at h
            · cases h
            · rename_i q'' herase
              cases h
              exact herase
          · rename_i hrw
            rw [if_neg hrw]
            cases h
            rfl

end CommandQueue

namespace Controller

variable {c : Config} {s s' : Controller c} {r : Command c}

/-- `GetCommandToIssue`: a turn of a queue, and a command that leaves it. -/
theorem takeCommand_moves {answer : Option (Command c)} (hclk : s.cmdQueue.clk = s.clk)
    (h : s.takeCommand = .ok (answer, s')) :
    ∃ refs isInRef idx, (answer = none ∧ s' = s.turned refs isInRef idx) ∨
      ∃ r, answer = some r ∧ Origin (s.turned refs isInRef idx) r ∧
        s' = (s.turned refs isInRef idx).leaves r := by
  unfold takeCommand at h
  split at h
  · cases h
  · rename_i cmd q' hissue
    cases h
    obtain ⟨idx, -, ⟨rfl, rfl⟩ |
      ⟨r, before, cmd, after, rfl, hqueue, hfree, hready, hmay, -, hleave⟩⟩ :=
      CommandQueue.issueFrom_ok hissue
    · exact ⟨_, _, idx, Or.inl ⟨rfl, rfl⟩⟩
    · refine ⟨s.cmdQueue.refQIndices, s.cmdQueue.isInRef, idx, Or.inr ⟨r, rfl, ?_, ?_⟩⟩
      · rw [hclk] at hready
        exact .queue idx before cmd after hqueue hfree hready hmay
      · unfold leaves
        split at hleave
        · rename_i hrw
          rw [if_pos hrw, CommandQueue.eraseRWCommand_ok hleave]
          rfl
        · rename_i hrw
          rw [if_neg hrw]
          cases hleave
          rfl

/-- A turn of `FinishRefresh`. -/
theorem finishRefresh_ok {q' : CommandQueue c} {ref : Command c} {answer : Option (Command c)}
    (h : s.cmdQueue.finishRefresh s.channelState ref = .ok (answer, q')) :
    (∃ refs isInRef, { s with cmdQueue := q' } = s.turned refs isInRef s.cmdQueue.queueIdx) ∧
      s.channelState.getReadyCommand ref s.cmdQueue.clk = .ok answer := by
  unfold CommandQueue.finishRefresh at h
  dsimp only at h
  have hq : (if s.cmdQueue.isInRef = true then s.cmdQueue
      else { s.cmdQueue.getRefQIndices ref with isInRef := true }).clk = s.cmdQueue.clk ∧
      ∃ refs isInRef, (if s.cmdQueue.isInRef = true then s.cmdQueue
      else { s.cmdQueue.getRefQIndices ref with isInRef := true }) =
        { s.cmdQueue with refQIndices := refs, isInRef := isInRef } := by
    split
    · exact ⟨rfl, _, _, rfl⟩
    · exact ⟨rfl, _, _, rfl⟩
  obtain ⟨hclk, refs, isInRef, heq⟩ := hq
  rw [heq] at h
  split at h
  · cases h
  · rename_i hready
    cases h
    exact ⟨⟨_, _, rfl⟩, hready⟩
  · rename_i cmd hready
    split at h
    · cases h
      exact ⟨⟨_, _, rfl⟩, hready⟩
    · cases h
      exact ⟨⟨_, _, rfl⟩, hready⟩

/-- What a cycle relies on: the two clocks agree, and only refreshes wait to be issued first. -/
structure InStep (s : Controller c) : Prop where
  clk : s.cmdQueue.clk = s.clk
  refreshes : ∀ cmd ∈ s.channelState.refreshQ, cmd.cmdType.isRefresh = true

theorem leaves_eq (s : Controller c) (r : Command c) :
    ∃ q, s.leaves r = { s with cmdQueue := { s.cmdQueue with queues := q } } := by
  unfold leaves
  split
  · exact ⟨_, rfl⟩
  · exact ⟨_, rfl⟩

theorem mem_refreshQ_applied {x : ChannelState c} {clk : Nat} {cmd : Command c}
    (h : cmd ∈ (x.applied r clk).refreshQ) : cmd ∈ x.refreshQ := by
  have h : cmd ∈ x.refreshQAfter r := h
  unfold ChannelState.refreshQAfter at h
  split at h
  · exact List.mem_of_mem_eraseP h
  · exact List.mem_of_mem_eraseP h
  · exact h

theorem addCommand_clk (q : CommandQueue c) (cmd : Command c) :
    (q.addCommand cmd).2.clk = q.clk := by
  unfold CommandQueue.addCommand
  dsimp only
  split <;> rfl

theorem Move.inStep (h : Move s s') (hs : InStep s) : InStep s' := by
  obtain ⟨hclk, hrefs⟩ := hs
  cases h with
  | due new hnew =>
    refine ⟨hclk, fun cmd hcmd => ?_⟩
    rcases List.mem_append.mp hcmd with hcmd | hcmd
    · exact hrefs cmd hcmd
    · exact hnew cmd hcmd
  | turn => exact ⟨hclk, hrefs⟩
  | @issue r horigin hissue =>
    obtain ⟨q, hq⟩ := s.leaves_eq r
    refine ⟨?_, fun cmd hcmd => ?_⟩
    · show (s.leaves r).cmdQueue.clk = (s.leaves r).clk
      rw [hq]
      exact hclk
    · have hmem := mem_refreshQ_applied hcmd
      rw [hq] at hmem
      exact hrefs cmd hmem
  | @drop r =>
    obtain ⟨q, hq⟩ := s.leaves_eq r
    rw [hq]
    exact ⟨hclk, hrefs⟩
  | idle => exact ⟨hclk, hrefs⟩
  | drain => exact ⟨hclk, hrefs⟩
  | @schedule src before t after =>
    have hqueue := addCommand_clk s.cmdQueue (transToCommand t.addr t.isWrite)
    cases src with
    | unified => exact ⟨hqueue.trans hclk, hrefs⟩
    | write => exact ⟨hqueue.trans hclk, hrefs⟩
    | read => exact ⟨hqueue.trans hclk, hrefs⟩
  | tick => exact ⟨congrArg (· + 1) hclk, hrefs⟩

theorem Moves.inStep (h : Moves s s') (hs : InStep s) : InStep s' := by
  induction h with
  | refl => exact hs
  | tail _ hmove ih => exact hmove.inStep ih

/-- What a move keeps, a sequence of moves keeps. -/
theorem Moves.keeps (I : Controller c → Prop) (hmove : ∀ s s', InStep s → I s → Move s s' → I s')
    (h : Moves s s') (hs : InStep s) (hI : I s) : I s' := by
  induction h with
  | refl => exact hI
  | tail hprior hlast ih => exact hmove _ _ (Moves.inStep hprior hs) ih hlast

/-- The first command of a cycle. -/
theorem firstCommand_moves {answer : Option (Command c)} (hs : InStep s)
    (h : s.firstCommand = .ok (answer, s')) :
    ∃ t, Moves s t ∧ t.clk = s.clk ∧
      ((answer = none ∧ s' = t) ∨ ∃ r, answer = some r ∧ Origin t r ∧ s' = t.leaves r) := by
  have htake {u : Controller c} (hmoves : Moves s u) (huclk : u.clk = s.clk)
      (h : u.takeCommand = .ok (answer, s')) :
      ∃ t, Moves s t ∧ t.clk = s.clk ∧
      ((answer = none ∧ s' = t) ∨ ∃ r, answer = some r ∧ Origin t r ∧ s' = t.leaves r) := by
    obtain ⟨refs, isInRef, idx, hresult⟩ := takeCommand_moves (hmoves.inStep hs).clk h
    exact ⟨_, hmoves.tail (.turn u refs isInRef idx), huclk, hresult⟩
  unfold firstCommand at h
  split at h
  · exact htake .refl rfl h
  · rename_i ref rest hfront
    split at h
    · cases h
    · rename_i cmd q' hfinish
      cases h
      obtain ⟨⟨refs, isInRef, hturn⟩, hready⟩ := finishRefresh_ok hfinish
      rw [hs.clk] at hready
      have hrw : cmd.cmdType.isReadWrite = false := by
        have href := hs.refreshes ref (by rw [hfront]; exact List.mem_cons_self)
        obtain ⟨-, -, -, -, -, hkind⟩ := ChannelState.getReadyCommand_ready hready
        rcases hkind with hkind | hkind | ⟨hkind, -⟩
        · rw [hkind]
          exact CommandType.isReadWrite_of_isRefresh href
        · rw [hkind]
          rfl
        · simp [CommandType.isReadWrite_of_isRefresh href] at hkind
      refine ⟨_, .single (.turn s refs isInRef s.cmdQueue.queueIdx), rfl,
        Or.inr ⟨cmd, rfl, .refresh ref rest hfront hready, ?_⟩⟩
      rw [← hturn]
      simp [leaves, hrw]
    · rename_i q' hfinish
      obtain ⟨⟨refs, isInRef, hturn⟩, -⟩ := finishRefresh_ok hfinish
      rw [hturn] at h
      exact htake (.single (.turn s refs isInRef s.cmdQueue.queueIdx)) rfl h

/-- The second command of a cycle. -/
theorem secondCommand_moves {first : Command c} (hs : InStep s) (hdual : c.enableHbmDualCmd = true)
    (hfirst : s.cmdTrace.head? = some ⟨s.clk, first⟩) (h : s.secondCommand first = .ok s') :
    Moves s s' := by
  unfold secondCommand at h
  split at h
  · cases h
  · rename_i t htake
    cases h
    obtain ⟨refs, isInRef, idx, ⟨-, rfl⟩ | ⟨r, hr, -⟩⟩ := takeCommand_moves hs.clk htake
    · exact .single (.turn s refs isInRef idx)
    · cases hr
  · rename_i second t htake
    obtain ⟨refs, isInRef, idx, ⟨hnone, -⟩ | ⟨r, hr, horigin, rfl⟩⟩ :=
      takeCommand_moves hs.clk htake
    · cases hnone
    · cases hr
      have hturn : Moves s (s.turned refs isInRef idx) := .single (.turn s refs isInRef idx)
      split at h
      · obtain ⟨rfl, hissue⟩ := issueCommand_ok h
        obtain ⟨q, hq⟩ := (s.turned refs isInRef idx).leaves_eq second
        refine hturn.tail (.issue horigin ?_)
        rw [hq] at hissue
        exact ⟨hissue.read, hissue.write, hissue.banks⟩
      · rename_i hsame
        cases h
        by_cases hrw : second.cmdType.isReadWrite = true
        · refine hturn.tail (.drop horigin hrw hdual hfirst ?_)
          simpa [hrw] using hsame
        · simpa [leaves, hrw] using hturn

/-- The commands of a cycle. -/
theorem issueCommands_moves {cmdIssued : Bool} (hs : InStep s)
    (h : s.issueCommands = .ok (cmdIssued, s')) : Moves s s' := by
  unfold issueCommands at h
  split at h
  · cases h
  · rename_i t hfirst
    cases h
    obtain ⟨t, hmoves, -, ⟨-, rfl⟩ | ⟨r, hr, -⟩⟩ := firstCommand_moves hs hfirst
    · exact hmoves
    · cases hr
  · rename_i cmd u hfirst
    obtain ⟨t, hmoves, hclk, ⟨hnone, -⟩ | ⟨r, hr, horigin, rfl⟩⟩ := firstCommand_moves hs hfirst
    · cases hnone
    · cases hr
      split at h
      · cases h
      · rename_i v hissue
        obtain ⟨rfl, hissuable⟩ := issueCommand_ok hissue
        obtain ⟨q, hq⟩ := t.leaves_eq cmd
        have hissued : Moves s ((t.leaves cmd).issued cmd) := by
          refine hmoves.tail (.issue horigin ?_)
          rw [hq] at hissuable
          exact ⟨hissuable.read, hissuable.write, hissuable.banks⟩
        split at h
        · rename_i hdual
          split at h
          · cases h
          · rename_i w hsecond
            cases h
            exact hissued.trans (secondCommand_moves (hissued.inStep hs) hdual rfl hsecond)
        · cases h
          exact hissued

theorem selfRefreshFrom_moves {ranks : List (Fin c.ranks)} (henable : c.enableSelfRefresh = true)
    (h : s.selfRefreshFrom ranks = .ok s') : Moves s s' := by
  induction ranks with
  | nil =>
    cases h
    exact .refl
  | cons i ranks ih =>
    unfold selfRefreshFrom at h
    split at h
    · exact ih h
    · rename_i cmd hcmd
      split at h
      · cases h
      · exact ih h
      · rename_i ready hready
        obtain ⟨rfl, hissuable⟩ := issueCommand_ok h
        have htype : cmd.cmdType = .srefEnter ∨ cmd.cmdType = .srefExit := by
          unfold selfRefreshCommand at hcmd
          split at hcmd
          · split at hcmd
            · cases hcmd
            · cases hcmd
              exact Or.inr rfl
          · split at hcmd
            · cases hcmd
              exact Or.inl rfl
            · cases hcmd
        have hrw : ready.cmdType.isReadWrite = false := by
          obtain ⟨-, -, -, -, -, hkind⟩ := ChannelState.getReadyCommand_ready hready
          rcases htype with htype | htype <;>
          · rw [htype] at hkind
            rcases hkind with hkind | hkind | ⟨hkind, -⟩
            · rw [hkind]
              rfl
            · rw [hkind]
              rfl
            · cases hkind
        have hmove := Move.issue (.power cmd henable htype hready) hissuable
        simp only [leaves, hrw] at hmove
        exact .single hmove

/-- The loop of `ScheduleTransaction`. -/
theorem scheduleFrom_moves {src : Source} {before queue : List Transaction}
    (hqueue : s.queue src = before ++ queue) (hsrc : src = .unified ↔ c.unifiedQueue = true)
    (hbefore : ∀ x ∈ before,
      s.cmdQueue.willAcceptCommand (c.addressMapping x.addr).bank = false) :
    Moves s (s.scheduleFrom src before queue) := by
  induction queue generalizing before with
  | nil => exact .refl
  | cons t after ih =>
    unfold scheduleFrom
    dsimp only
    split
    · rename_i haccept
      split
      · rename_i hwrite
        split
        · exact .single (.drain s 0)
        · rename_i hcount
          have hmove := Move.drain s (s.writeDraining - 1)
          refine (Relation.ReflTransGen.single hmove).tail ?_
          refine Move.schedule (s := { s with writeDraining := s.writeDraining - 1 }) ?_ hsrc
            haccept hbefore fun _ _ => Nat.eq_zero_of_not_pos hcount
          cases src <;> exact hqueue
      · rename_i hwrite
        refine .single (.schedule hqueue hsrc haccept hbefore fun hunified ht => ?_)
        refine absurd ⟨hunified, ?_⟩ hwrite
        simp only [transToCommand, ht]
        cases c.rowBufPolicy <;> rfl
    · rename_i haccept
      refine ih (by simpa using hqueue) fun x hx => ?_
      rcases List.mem_append.mp hx with hx | hx
      · exact hbefore x hx
      · rw [List.mem_singleton.mp hx]
        simpa [transToCommand] using haccept

theorem scheduleTransaction_moves (s : Controller c) : Moves s s.scheduleTransaction := by
  have hdrain : Moves s s.startDraining := by
    unfold startDraining
    split
    · exact .single (.drain s _)
    · exact .refl
  refine hdrain.trans (scheduleFrom_moves (by simp) ?_ (by simp))
  unfold source
  split
  · rename_i hunified
    simp [hunified]
  · rename_i hunified
    split <;> simp [hunified]

/-- `Refresh::ClockTick` -/
theorem refresh_clockTick_due (s : Controller c) :
    ∃ new, (∀ cmd ∈ new, cmd.cmdType.isRefresh = true) ∧
      (s.refresh.clockTick s.channelState).2 =
        { s.channelState with refreshQ := s.channelState.refreshQ ++ new } := by
  have hinsert : ∃ new : List (Command c), (∀ cmd ∈ new, cmd.cmdType.isRefresh = true) ∧
      (s.refresh.insertRefresh s.channelState).2 =
        { s.channelState with refreshQ := s.channelState.refreshQ ++ new } := by
    unfold Refresh.insertRefresh
    split
    · split
      · exact ⟨_, by simp [bareCommand, CommandType.isRefresh], rfl⟩
      · exact ⟨[], by simp, by simp⟩
    · dsimp only
      split
      · exact ⟨[], by simp, by simp⟩
      · exact ⟨_, by simp [bareCommand, CommandType.isRefresh], rfl⟩
    · dsimp only
      split
      · exact ⟨[], by simp, by simp⟩
      · exact ⟨_, by simp [bareCommand, CommandType.isRefresh], rfl⟩
  unfold Refresh.clockTick
  dsimp only
  split
  · exact hinsert
  · exact ⟨[], by simp, by simp⟩

/-- `Refresh::ClockTick` is a move. -/
theorem refresh_clockTick_move (s : Controller c) : Move s s.refreshed := by
  obtain ⟨new, hnew, hdue⟩ := s.refresh_clockTick_due
  have hmove := Move.due s new hnew hdue
  unfold due at hmove
  rwa [← hdue] at hmove

/-- What comes before `ScheduleTransaction` is a sequence of moves. -/
theorem issuePhase_moves (hs : InStep s) (h : s.issuePhase = .ok s') : Moves s s' := by
  have hfirst := s.refresh_clockTick_move
  unfold issuePhase at h
  split at h
  · cases h
  · rename_i cmdIssued t hcmds
    have hissued := (Relation.ReflTransGen.single hfirst).trans
      (issueCommands_moves (hfirst.inStep hs) hcmds)
    have hidle : Moves s t.countIdleCycles := hissued.tail (.idle t _)
    split at h
    · rename_i henable
      exact hidle.trans (selfRefreshFrom_moves (by simp_all) h)
    · cases h
      exact hidle

/-- A cycle is a sequence of moves. -/
theorem clockTick_moves (hs : InStep s) (h : s.clockTick = .ok s') : Moves s s' := by
  obtain ⟨u, hphase, rfl⟩ := clockTick_ok h
  exact ((issuePhase_moves hs hphase).trans (scheduleTransaction_moves u)).tail (.tick _)

end Controller

end NetSim.Memory
