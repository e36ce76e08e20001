import NetSim.Memory.Progress
import NetSim.Memory.Service

/-!
# The order of the refreshes

`Refresh` asks for a refresh every interval and goes around the ranks or the banks; the requests
wait in a queue until their banks are closed. Without self refresh the requests are issued in their
order: the refresh commands of the trace and the waiting requests are the first requests of the
schedule, and their number is given by the clock (`refreshes_in_order`). None is lost and none is
issued twice.
-/

namespace NetSim.Memory

open Common Library

variable {c : Config}

/-! ## The schedule -/

namespace Config

/-- The cycles between two requests. -/
def interval (c : Config) : Nat := (refreshInterval c.refreshPolicy c.ranks c.timing).toNat

theorem interval_ne_zero (c : Config) : 0 < c.interval := by
  have hpos : 0 < refreshInterval c.refreshPolicy c.ranks c.timing := c.interval_pos
  unfold interval
  omega

/-- The requests before the cycle `clk` of `Refresh`. -/
def requestCount (c : Config) (clk : Nat) : Nat := (clk - 1) / c.interval

theorem requestCount_succ (c : Config) (clk : Nat) :
    c.requestCount (clk + 1) =
      c.requestCount clk + if clk % c.interval = 0 ∧ 0 < clk then 1 else 0 := by
  unfold requestCount
  cases clk with
  | zero => simp
  | succ n =>
    rw [Nat.add_sub_cancel, Nat.add_sub_cancel, Nat.succ_div]
    simp [Nat.dvd_iff_mod_eq_zero]

end Config

/-- A counter that starts again at `k`. -/
def counter {k : Nat} (hk : 0 < k) (n : Nat) : Fin k := ⟨n % k, Nat.mod_lt _ hk⟩

theorem find?_finRange {k : Nat} (hk : 0 < k) {p : Fin k → Bool} (hp : ∀ i, p i = true) :
    (List.finRange k).find? p = some (counter hk 0) := by
  rw [List.find?_eq_some_iff_getElem]
  refine ⟨hp _, 0, by simpa using hk, ?_, by simp⟩
  simp [counter]

theorem cyclicSucc_val {k n : Nat} {i : Fin k} (h : i.val = n % k) :
    (cyclicSucc i).val = (n + 1) % k := by
  show (i.val + 1) % k = _
  rw [h, Nat.mod_add_mod]

/-- The next digit counts when a counter starts again. -/
theorem div_succ (k n : Nat) : (n + 1) / k = n / k + if (n + 1) % k = 0 then 1 else 0 := by
  rw [Nat.succ_div]
  simp only [Nat.dvd_iff_mod_eq_zero]

namespace Config

/-- The bank of the request number `n`: the ranks take turns, or the bank groups, then the banks in
them and then the ranks. `RANK_LEVEL_SIMULTANEOUS` always asks for rank 0, as the loop of
`InsertRefresh` breaks after the first rank. -/
def refreshBank (c : Config) (n : Nat) : BankId c :=
  match c.refreshPolicy with
  | .rankLevelSimultaneous => firstBank c (counter c.ranks_pos 0)
  | .rankLevelStaggered => firstBank c (counter c.ranks_pos n)
  | .bankLevelStaggered =>
    ⟨counter c.ranks_pos (n / c.bankgroups / c.banksPerGroup), counter c.bankgroups_pos n,
      counter c.banksPerGroup_pos (n / c.bankgroups)⟩

/-- The request number `n`. -/
def refreshRequest (c : Config) (n : Nat) : Command c :=
  match c.refreshPolicy with
  | .bankLevelStaggered => bareCommand .refreshBank (c.refreshBank n)
  | _ => bareCommand .refresh (c.refreshBank n)

end Config

namespace Refresh

/-- The place of the request number `n`. -/
def At (r : Refresh c) (n : Nat) : Prop :=
  match c.refreshPolicy with
  | .rankLevelSimultaneous => True
  | .rankLevelStaggered => r.nextRank.val = n % c.ranks
  | .bankLevelStaggered =>
    r.nextBg.val = n % c.bankgroups ∧ r.nextBank.val = n / c.bankgroups % c.banksPerGroup ∧
      r.nextRank.val = n / c.bankgroups / c.banksPerGroup % c.ranks

theorem iterateNext_at {r : Refresh c} {n : Nat} (h : r.At n) : r.iterateNext.At (n + 1) := by
  unfold At at h ⊢
  unfold iterateNext
  cases hpolicy : c.refreshPolicy with
  | rankLevelSimultaneous => trivial
  | rankLevelStaggered =>
    rw [hpolicy] at h
    exact cyclicSucc_val h
  | bankLevelStaggered =>
    rw [hpolicy] at h
    obtain ⟨hbg, hbank, hrank⟩ := h
    have hbg' := cyclicSucc_val hbg
    have hbank' := cyclicSucc_val hbank
    have hgroups := div_succ c.bankgroups n
    dsimp only
    rw [hbg']
    split
    · rename_i hwrap
      rw [if_pos hwrap] at hgroups
      have hround := div_succ c.banksPerGroup (n / c.bankgroups)
      rw [hbank', hgroups]
      split
      · rename_i hall
        rw [if_pos hall] at hround
        exact ⟨hbg', hbank', hround ▸ cyclicSucc_val hrank⟩
      · rename_i hmore
        rw [if_neg hmore, Nat.add_zero] at hround
        exact ⟨hbg', hbank', hround ▸ hrank⟩
    · rename_i hmore
      rw [if_neg hmore, Nat.add_zero] at hgroups
      rw [hgroups]
      exact ⟨hbg', hbank, hrank⟩

theorem iterateNext_clk (r : Refresh c) : r.iterateNext.clk = r.clk := by
  unfold iterateNext
  split
  · rfl
  · rfl
  · dsimp only
    split
    · split <;> rfl
    · rfl

/-- Every cycle counts. -/
theorem clockTick_clk (r : Refresh c) (s : ChannelState c) :
    (r.clockTick s).1.clk = r.clk + 1 := by
  have hinsert : (r.insertRefresh s).1.clk = r.clk := by
    unfold insertRefresh
    split
    · split <;> rfl
    · exact iterateNext_clk r
    · exact iterateNext_clk r
  unfold clockTick
  dsimp only
  split
  · exact congrArg (· + 1) hinsert
  · rfl

/-- `InsertRefresh` adds the next request. -/
theorem insertRefresh_eq {r : Refresh c} {s : ChannelState c} {n : Nat} (h : r.At n)
    (hawake : ∀ i, s.rankIsSref i = false) :
    (r.insertRefresh s).1.At (n + 1) ∧
      (r.insertRefresh s).2 = { s with refreshQ := s.refreshQ ++ [c.refreshRequest n] } := by
  have hnext := iterateNext_at h
  unfold insertRefresh Config.refreshRequest Config.refreshBank
  unfold At at h
  cases hpolicy : c.refreshPolicy with
  | rankLevelSimultaneous =>
    have hfirst : ((List.finRange c.ranks).find? fun i => !s.rankIsSref i) =
        some (counter c.ranks_pos 0) :=
      find?_finRange c.ranks_pos fun i => congrArg (!·) (hawake i)
    dsimp only
    rw [hfirst]
    refine ⟨?_, rfl⟩
    simp [At, hpolicy]
  | rankLevelStaggered =>
    rw [hpolicy] at h
    have hrank : r.nextRank = counter c.ranks_pos n := Fin.ext h
    dsimp only
    rw [hawake, if_neg Bool.false_ne_true]
    refine ⟨hnext, ?_⟩
    rw [hrank]
    rfl
  | bankLevelStaggered =>
    rw [hpolicy] at h
    obtain ⟨hbg, hbank, hrank⟩ := h
    have hbg : r.nextBg = counter c.bankgroups_pos n := Fin.ext hbg
    have hbank : r.nextBank = counter c.banksPerGroup_pos (n / c.bankgroups) := Fin.ext hbank
    have hrank : r.nextRank = counter c.ranks_pos (n / c.bankgroups / c.banksPerGroup) :=
      Fin.ext hrank
    dsimp only
    rw [hawake, if_neg Bool.false_ne_true]
    refine ⟨hnext, ?_⟩
    rw [hbg, hbank, hrank]
    rfl

/-- `Refresh::ClockTick` adds the requests of its cycle. -/
theorem clockTick_eq {r : Refresh c} {s : ChannelState c} (h : r.At (c.requestCount r.clk))
    (hawake : ∀ i, s.rankIsSref i = false) :
    (r.clockTick s).1.At (c.requestCount (r.clk + 1)) ∧
      ∃ new, (r.clockTick s).2 = { s with refreshQ := s.refreshQ ++ new } ∧
        (List.range (c.requestCount r.clk)).map c.refreshRequest ++ new =
          (List.range (c.requestCount (r.clk + 1))).map c.refreshRequest := by
  have hcount := c.requestCount_succ r.clk
  obtain ⟨hat, hqueue⟩ := insertRefresh_eq h hawake
  unfold clockTick
  dsimp only
  split
  · rename_i hdue
    have hdue : r.clk % c.interval = 0 ∧ 0 < r.clk := hdue
    rw [if_pos hdue] at hcount
    refine ⟨?_, [c.refreshRequest (c.requestCount r.clk)], hqueue, ?_⟩
    · rw [hcount]
      exact hat
    · rw [hcount, List.range_succ, List.map_append]
      rfl
  · rename_i hnot
    have hnot : ¬ (r.clk % c.interval = 0 ∧ 0 < r.clk) := hnot
    rw [if_neg hnot] at hcount
    have hcount : c.requestCount (r.clk + 1) = c.requestCount r.clk := hcount
    rw [hcount]
    exact ⟨h, [], by simp, List.append_nil _⟩

end Refresh

/-! ## The requests of a controller -/

/-- The refresh commands of a trace, in the order of their issue. -/
def refreshes (trace : List (Issued c)) : List (Command c) :=
  ((trace.map Issued.cmd).filter fun cmd => cmd.cmdType.isRefresh).reverse

namespace Controller

variable {s s' : Controller c} {r : Command c}

/-- The requests so far, those that were issued first. -/
def requests (s : Controller c) : List (Command c) :=
  refreshes s.cmdTrace ++ s.channelState.refreshQ

/-- A refresh that is issued is the first that waits. -/
theorem Origin.refresh_front (h : Origin s r) (hoff : c.enableSelfRefresh = false)
    (hplaced : AllPlaced s) (hr : r.cmdType.isRefresh = true) :
    ∃ rest, s.channelState.refreshQ = r :: rest := by
  cases h with
  | refresh ref rest hfront hready =>
    obtain ⟨-, -, -, -, hself, hkind⟩ := ChannelState.getReadyCommand_ready hready
    rcases hkind with hkind | hkind | ⟨-, hkind | hkind⟩
    · rw [hself hkind]
      exact ⟨rest, hfront⟩
    all_goals
      rw [hkind] at hr
      cases hr
  | queue i before cmd after hqueue hfree hready =>
    have hcmd := (hplaced i cmd (by rw [hqueue]; simp)).isReadWrite
    obtain ⟨-, -, -, -, -, hkind⟩ := ChannelState.getReadyCommand_ready hready
    rcases hkind with hkind | hkind | ⟨-, hkind | hkind⟩
    · rw [hkind] at hr
      rw [CommandType.isReadWrite_of_isRefresh hr] at hcmd
      cases hcmd
    all_goals
      rw [hkind] at hr
      cases hr
  | power cmd henable => simp [hoff] at henable

/-- A command that is issued keeps the requests. -/
theorem issued_requests (hfront : r.cmdType.isRefresh = true →
    ∃ rest, s.channelState.refreshQ = r :: rest) : (s.issued r).requests = s.requests := by
  have htrace : refreshes (s.issued r).cmdTrace =
      refreshes s.cmdTrace ++ if r.cmdType.isRefresh then [r] else [] := by
    show refreshes (⟨s.clk, r⟩ :: s.cmdTrace) = _
    unfold refreshes
    rw [List.map_cons, List.filter_cons]
    cases r.cmdType.isRefresh <;> simp
  unfold requests
  rw [htrace]
  show _ ++ s.channelState.refreshQAfter r = _
  cases hr : r.cmdType.isRefresh with
  | true =>
    obtain ⟨rest, hrest⟩ := hfront hr
    have hafter : s.channelState.refreshQAfter r = rest := by
      unfold ChannelState.refreshQAfter
      rw [hrest]
      cases htype : r.cmdType <;> rw [htype] at hr <;> cases hr <;> simp
    rw [hafter, hrest, if_pos rfl, List.append_assoc]
    rfl
  | false =>
    have hafter : s.channelState.refreshQAfter r = s.channelState.refreshQ := by
      unfold ChannelState.refreshQAfter
      cases htype : r.cmdType <;> rw [htype] at hr <;> first | rfl | cases hr
    rw [hafter]
    simp

/-- The requests follow the schedule. -/
structure OnSchedule (s : Controller c) : Prop where
  steady : Steady s
  awake : ∀ i, s.channelState.rankIsSref i = false
  place : s.refresh.At (c.requestCount s.refresh.clk)
  requests : s.requests = (List.range (c.requestCount s.refresh.clk)).map c.refreshRequest

theorem OnSchedule.move (hoff : c.enableSelfRefresh = false) (h : OnSchedule s) (hs : InStep s)
    (hmove : Move s s') : OnSchedule s' := by
  have hsteady := h.steady.move hoff hs hmove
  cases hmove with
  | turn | idle | drain | tick => exact ⟨hsteady, h.awake, h.place, h.requests⟩
  | due new hnew hdue =>
    obtain ⟨hplace, new', hqueue, hrequests⟩ := Refresh.clockTick_eq h.place h.awake
    have hclk := s.refresh.clockTick_clk s.channelState
    have hsame : new' = new := by
      have hqueues := congrArg ChannelState.refreshQ (hqueue.symm.trans hdue)
      exact List.append_cancel_left hqueues
    subst hsame
    refine ⟨hsteady, h.awake, ?_, ?_⟩
    · show (s.refresh.clockTick s.channelState).1.At (c.requestCount _)
      have hclk : (s.due (s.refresh.clockTick s.channelState).1 new').refresh.clk =
        s.refresh.clk + 1 := hclk
      rw [hclk]
      exact hplace
    · have hclk : (s.due (s.refresh.clockTick s.channelState).1 new').refresh.clk =
        s.refresh.clk + 1 := hclk
      rw [hclk, ← hrequests, ← h.requests]
      exact (List.append_assoc _ _ _).symm
  | @issue r horigin hissue =>
    obtain ⟨henter, hexit⟩ := horigin.no_sref hoff hs h.steady.carried.placed h.steady.awake
    obtain ⟨q, hq⟩ := s.leaves_eq r
    have hsref : s.channelState.srefAfter r = s.channelState.rankIsSref := by
      unfold ChannelState.srefAfter
      split
      · rename_i htype
        exact absurd htype henter
      · rename_i htype
        exact absurd htype hexit
      · rfl
    have hrequests := issued_requests (s := s.leaves r) (r := r) fun hr => by
      rw [hq]
      exact horigin.refresh_front hoff h.steady.carried.placed hr
    refine ⟨hsteady, fun i => ?_, ?_, ?_⟩
    · show (s.leaves r).channelState.srefAfter r i = false
      rw [hq]
      show s.channelState.srefAfter r i = false
      rw [hsref]
      exact h.awake i
    · show (s.leaves r).refresh.At _
      rw [hq]
      exact h.place
    · rw [hrequests, hq]
      exact h.requests
  | @drop r =>
    obtain ⟨q, hq⟩ := s.leaves_eq r
    rw [hq] at hsteady ⊢
    exact ⟨hsteady, h.awake, h.place, h.requests⟩
  | @schedule src => cases src <;> exact ⟨hsteady, h.awake, h.place, h.requests⟩

theorem OnSchedule.moves (hoff : c.enableSelfRefresh = false) (h : OnSchedule s) (hs : InStep s)
    (hmoves : Moves s s') : OnSchedule s' :=
  hmoves.keeps OnSchedule (fun _ _ hs h hmove => h.move hoff hs hmove) hs h

/-- `Refresh` and the controller have the same clock between cycles. -/
theorem Run.refresh_clk (h : Run s) : s.refresh.clk = s.clk := by
  refine Reach.invariant (fun s => s.refresh.clk = s.clk) rfl ?_ h
  intro s action s' _ hclk _ hstep
  cases action with
  | add addr isWrite =>
    unfold Steps step at hstep
    dsimp only at hstep
    split at hstep
    · cases hstep
      obtain ⟨hsame, -, -, hrefresh, -⟩ := (addTransaction_added s addr isWrite).frame
      rw [hsame, hrefresh, hclk]
    · cases hstep
  | returnDone clk =>
    unfold Steps step at hstep
    obtain ⟨⟨t, u⟩, hreturned, rfl⟩ := Option.map_eq_some_iff.mp hstep
    obtain ⟨before, after, -, -, rfl⟩ := returnDoneTrans_eq hreturned
    exact hclk
  | tick =>
    obtain ⟨hticked, u, hserves, hrefresh, -⟩ := clockTick_serves (ok_of_toOption hstep)
    have hserved : u.refresh.clk = s.refresh.clk + 1 := by
      rw [hserves.refresh]
      exact s.refresh.clockTick_clk s.channelState
    rw [← hrefresh, hserved, hticked, hclk]

theorem OnSchedule.added {a : Addr} {w : Bool} (h : OnSchedule s) (hadd : Added s a w s') :
    OnSchedule s' := by
  obtain ⟨-, hstate, -, hrefresh, htrace⟩ := hadd.frame
  refine ⟨⟨h.steady.carried.added hadd, ?_⟩, ?_, ?_, ?_⟩
  · rw [hstate]
    exact h.steady.awake
  · rw [hstate]
    exact h.awake
  · rw [hrefresh]
    exact h.place
  · rw [Controller.requests, hstate, htrace, hrefresh]
    exact h.requests

theorem OnSchedule.returned (h : OnSchedule s) (ts : List Transaction) :
    OnSchedule { s with returnQueue := ts } :=
  ⟨⟨h.steady.carried.same ⟨rfl, rfl, rfl⟩, h.steady.awake⟩, h.awake, h.place, h.requests⟩

theorem onSchedule_init (hoff : c.enableSelfRefresh = false) :
    OnSchedule (init : Controller c) := by
  refine ⟨(Run.steady hoff .start).1, fun _ => rfl, ?_, ?_⟩
  · unfold Refresh.At
    cases c.refreshPolicy <;> simp [init, Refresh.init, Config.requestCount]
  · simp [requests, refreshes, init, ChannelState.init, Refresh.init, Config.requestCount]

theorem Run.onSchedule (hoff : c.enableSelfRefresh = false) (h : Run s) : OnSchedule s := by
  refine (h.invariant OnSchedule (onSchedule_init hoff) ?_ ?_ ?_).1
  · intro s s' hs hschedule hmove
    exact hschedule.move hoff hs hmove
  · intro s addr isWrite s' hschedule _ hadded
    exact hschedule.added hadded
  · intro s before t after hschedule _
    exact hschedule.returned _

end Controller

/-- **Refreshes are issued in the order of the schedule.** Without self refresh, in every run, the
refresh commands of the trace in the order of their issue, followed by the requests that wait, are
the first requests of the schedule, one for each interval that has passed. -/
theorem refreshes_in_order (hoff : c.enableSelfRefresh = false) {s : Controller c}
    (h : Controller.Run s) :
    refreshes s.cmdTrace ++ s.channelState.refreshQ =
      (List.range ((s.clk - 1) / c.interval)).map c.refreshRequest := by
  have hrequests := (h.onSchedule hoff).requests
  rw [h.refresh_clk] at hrequests
  exact hrequests

/-- The configuration of `main` with a refresh of a bank every eight cycles. -/
theorem quickRefresh_interval :
    0 < refreshInterval .bankLevelStaggered Config.hbm2Geometry.ranks
      { Config.hbm2Timing with tREFIb := 8 } := by
  decide

def quickRefresh : Config :=
  { Config.hbm2 with
    timing := { Config.hbm2Timing with tREFIb := 8 }
    refreshPolicy := .bankLevelStaggered
    interval_pos := quickRefresh_interval }

/-- The refresh of the first bank group has been issued, and that of the next waits. -/
theorem refreshes_in_order_two : ∃ s : Controller quickRefresh, Controller.Run s ∧ s.clk = 17 ∧
    (refreshes s.cmdTrace).length = 1 ∧
    refreshes s.cmdTrace ++ s.channelState.refreshQ =
      (List.range 2).map quickRefresh.refreshRequest := by
  obtain ⟨s, hs, hp⟩ := Reach.of_run Controller.step Free
    (Controller.init : Controller quickRefresh) (List.replicate 17 .tick)
    (fun s => s.clk = 17 ∧ (refreshes s.cmdTrace).length = 1) (by decide +kernel)
  obtain ⟨hclk, hlength⟩ := of_decide_eq_true hp
  have horder := refreshes_in_order rfl hs
  rw [hclk] at horder
  exact ⟨s, hs, hclk, hlength, horder⟩

end NetSim.Memory
