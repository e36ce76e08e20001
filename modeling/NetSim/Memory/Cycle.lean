import NetSim.Memory.Controller

/-!
# The parts of a cycle

A cycle of a controller is `Refresh::ClockTick`, then the choice and the issue of commands, and at
last `ScheduleTransaction` (`Controller.clockTick_ok`). A relation that is kept by the functions
before `ScheduleTransaction`, one by one, is kept by this part as a whole
(`Controller.IssueClosed.issuePhase`). Nothing is assumed of the state of the controller. An
instance is `Controller.Drains`: the transactions that wait stay as they are, and commands only
leave the command queues.
-/

namespace NetSim.Memory

namespace Controller

variable {c : Config} {s t u : Controller c} {cmd : Command c}

/-- After `Refresh::ClockTick`. -/
def refreshed (s : Controller c) : Controller c :=
  { s with
    refresh := (s.refresh.clockTick s.channelState).1
    channelState := (s.refresh.clockTick s.channelState).2 }

/-- The end of a cycle. -/
def nextCycle (s : Controller c) : Controller c :=
  { s with clk := s.clk + 1, cmdQueue := s.cmdQueue.clockTick }

/-- A cycle up to `ScheduleTransaction`. -/
def issuePhase (s : Controller c) : Except Exit (Controller c) :=
  match s.refreshed.issueCommands with
  | .error e => .error e
  | .ok (cmdIssued, s) =>
    if c.enableSelfRefresh && !cmdIssued then
      s.countIdleCycles.selfRefreshFrom (List.finRange c.ranks)
    else .ok s.countIdleCycles

theorem clockTick_eq (s : Controller c) :
    s.clockTick = s.issuePhase.map fun u => u.scheduleTransaction.nextCycle := by
  have hissue : issueCommands { s with
      refresh := (s.refresh.clockTick s.channelState).1
      channelState := (s.refresh.clockTick s.channelState).2 } = s.refreshed.issueCommands := rfl
  unfold clockTick issuePhase
  dsimp only
  rw [hissue]
  cases s.refreshed.issueCommands with
  | error e => rfl
  | ok r =>
    dsimp only
    split
    · rename_i hself
      rw [hself]
      rfl
    · rename_i hself
      rw [hself]
      rfl

/-- The two parts of a cycle that returns. -/
theorem clockTick_ok (h : s.clockTick = .ok t) :
    ∃ u, s.issuePhase = .ok u ∧ t = u.scheduleTransaction.nextCycle := by
  rw [clockTick_eq] at h
  cases hphase : s.issuePhase with
  | error e =>
    rw [hphase] at h
    cases h
  | ok u =>
    rw [hphase] at h
    cases h
    exact ⟨u, rfl, rfl⟩

/-- A relation that the functions before `ScheduleTransaction` keep. -/
structure IssueClosed (R : Controller c → Controller c → Prop) : Prop where
  refl : ∀ s, R s s
  trans : ∀ {s t u}, R s t → R t u → R s u
  take : ∀ {s t : Controller c} {answer}, s.takeCommand = .ok (answer, t) → R s t
  finish : ∀ {s : Controller c} {ref answer q},
    s.cmdQueue.finishRefresh s.channelState ref = .ok (answer, q) → R s { s with cmdQueue := q }
  issue : ∀ {s t : Controller c} {cmd}, s.issueCommand cmd = .ok t → R s t
  idle : ∀ s, R s s.countIdleCycles

namespace IssueClosed

variable {R : Controller c → Controller c → Prop}

theorem firstCommand (h : IssueClosed R) {answer : Option (Command c)}
    (hfirst : s.firstCommand = .ok (answer, t)) : R s t := by
  unfold Controller.firstCommand at hfirst
  split at hfirst
  · exact h.take hfirst
  · split at hfirst
    · cases hfirst
    · rename_i hfinish
      cases hfirst
      exact h.finish hfinish
    · rename_i hfinish
      exact h.trans (h.finish hfinish) (h.take hfirst)

theorem secondCommand (h : IssueClosed R) {first : Command c}
    (hsecond : s.secondCommand first = .ok t) : R s t := by
  unfold Controller.secondCommand at hsecond
  split at hsecond
  · cases hsecond
  · rename_i htake
    cases hsecond
    exact h.take htake
  · rename_i htake
    split at hsecond
    · exact h.trans (h.take htake) (h.issue hsecond)
    · cases hsecond
      exact h.take htake

theorem issueCommands (h : IssueClosed R) {cmdIssued : Bool}
    (hissue : s.issueCommands = .ok (cmdIssued, t)) : R s t := by
  unfold Controller.issueCommands at hissue
  split at hissue
  · cases hissue
  · rename_i hfirst
    cases hissue
    exact h.firstCommand hfirst
  · rename_i cmd v hfirst
    split at hissue
    · cases hissue
    · rename_i w hcmd
      have hw : R s w := h.trans (h.firstCommand hfirst) (h.issue hcmd)
      split at hissue
      · split at hissue
        · cases hissue
        · rename_i hsecond
          cases hissue
          exact h.trans hw (h.secondCommand hsecond)
      · cases hissue
        exact hw

theorem selfRefreshFrom (h : IssueClosed R) {ranks : List (Fin c.ranks)}
    (hself : s.selfRefreshFrom ranks = .ok t) : R s t := by
  induction ranks with
  | nil =>
    cases hself
    exact h.refl s
  | cons i ranks ih =>
    unfold Controller.selfRefreshFrom at hself
    split at hself
    · exact ih hself
    · split at hself
      · cases hself
      · exact ih hself
      · exact h.issue hself

theorem issuePhase (h : IssueClosed R) (hphase : s.issuePhase = .ok t) : R s.refreshed t := by
  unfold Controller.issuePhase at hphase
  split at hphase
  · cases hphase
  · rename_i cmdIssued v hissue
    have hv : R s.refreshed v.countIdleCycles := h.trans (h.issueCommands hissue) (h.idle v)
    split at hphase
    · exact h.trans hv (h.selfRefreshFrom hphase)
    · cases hphase
      exact hv

end IssueClosed

/-! ## The waiting transactions -/

/-- The transactions that wait are the same, and commands have left the command queues. -/
structure Drains (s t : Controller c) : Prop where
  unified : t.unifiedQueue = s.unifiedQueue
  read : t.readQueue = s.readQueue
  write : t.writeBuffer = s.writeBuffer
  draining : t.writeDraining = s.writeDraining
  queues : ∀ i, (t.cmdQueue.queues i).Sublist (s.cmdQueue.queues i)

theorem updatePending_drains (h : s.updatePending cmd = .ok t) : Drains s t := by
  have hsame {v : Controller c} (hv : v = t) (hwaiting : Drains s v) : Drains s t := hv ▸ hwaiting
  unfold updatePending at h
  dsimp only at h
  split at h
  · split at h
    · cases h
    · exact hsame (Except.ok.inj h) ⟨rfl, rfl, rfl, rfl, fun i => .refl _⟩
  · split at h
    · split at h
      · cases h
      · exact hsame (Except.ok.inj h) ⟨rfl, rfl, rfl, rfl, fun i => .refl _⟩
    · exact hsame (Except.ok.inj h) ⟨rfl, rfl, rfl, rfl, fun i => .refl _⟩

theorem issueFrom_sublist {x : ChannelState c} {q q' : CommandQueue c} {fuel : Nat}
    {answer : Option (Command c)} (h : CommandQueue.issueFrom x fuel q = .ok (answer, q'))
    (i : Nat) :
    (q'.queues i).Sublist (q.queues i) := by
  induction fuel generalizing q with
  | zero =>
    cases h
    exact .refl _
  | succ fuel ih =>
    have hrest (h : CommandQueue.issueFrom x fuel q.getNextQueue = .ok (answer, q')) :
        (q'.queues i).Sublist (q.getNextQueue.queues i) := ih h
    unfold CommandQueue.issueFrom at h
    dsimp only at h
    split at h
    · exact hrest h
    · split at h
      · cases h
      · exact hrest h
      · split at h
        · split at h
          · cases h
          · rename_i q'' herase
            cases h
            unfold CommandQueue.eraseRWCommand at herase
            dsimp only at herase
            split at herase
            · cases herase
              by_cases hi : i = Config.getQueueIndex ‹Command c›.bank
              · subst hi
                dsimp only
                rw [Function.update_self]
                exact List.eraseP_sublist
              · dsimp only
                rw [Function.update_of_ne hi]
                exact .refl _
            · cases herase
        · cases h
          exact .refl _

theorem drains_issueClosed : IssueClosed (Drains (c := c)) where
  refl s := ⟨rfl, rfl, rfl, rfl, fun i => .refl _⟩
  trans h h' := ⟨h'.unified.trans h.unified, h'.read.trans h.read, h'.write.trans h.write,
    h'.draining.trans h.draining, fun i => (h'.queues i).trans (h.queues i)⟩
  take h := by
    unfold takeCommand at h
    split at h
    · cases h
    · rename_i hissue
      cases h
      exact ⟨rfl, rfl, rfl, rfl, issueFrom_sublist hissue⟩
  finish {s ref answer q} h := by
    have hqueues : q.queues = s.cmdQueue.queues := by
      unfold CommandQueue.finishRefresh at h
      dsimp only at h
      have hmarked : (if s.cmdQueue.isInRef = true then s.cmdQueue
          else { s.cmdQueue.getRefQIndices ref with isInRef := true }).queues =
          s.cmdQueue.queues := by
        split <;> rfl
      split at h
      · cases h
      · cases h
        exact hmarked
      · split at h
        · cases h
          exact hmarked
        · cases h
          exact hmarked
    refine ⟨rfl, rfl, rfl, rfl, fun i => ?_⟩
    dsimp only
    rw [hqueues]
  issue {s t cmd} h := by
    unfold issueCommand at h
    dsimp only at h
    split at h
    · cases h
    · rename_i v hpending
      have hv := updatePending_drains hpending
      split at h
      · cases h
      · cases h
        exact ⟨hv.unified, hv.read, hv.write, hv.draining, hv.queues⟩
  idle s := ⟨rfl, rfl, rfl, rfl, fun i => .refl _⟩

end Controller

end NetSim.Memory
