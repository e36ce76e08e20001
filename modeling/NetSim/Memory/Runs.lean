import NetSim.Memory.Moves
import NetSim.Library.Reach

/-!
# The runs of a controller

A controller between its callers: transactions are added when it accepts them, transactions that are
done are returned, and cycles pass, in any order. What the moves of a cycle, the new transactions
and the returned ones keep holds in every run (`Controller.Run.invariant`).
-/

namespace NetSim.Memory

open Common Library

namespace Controller

variable {c : Config} {s s' : Controller c} {r : Command c}

/-! ## Transactions from outside -/

/-- The queue that a new transaction goes to. -/
def destination (c : Config) (isWrite : Bool) : Source :=
  if c.unifiedQueue then .unified else if isWrite then .write else .read

theorem enqueue_eq (s : Controller c) (t : Transaction) :
    s.enqueue t = s.setQueue (s.queue (destination c t.isWrite) ++ [t])
      (destination c t.isWrite) := by
  unfold enqueue destination
  split
  · rfl
  · split <;> rfl

/-- A transaction that has just been added. -/
def fresh (s : Controller c) (addr : Addr) (isWrite : Bool) : Transaction :=
  ⟨addr, s.clk, 0, isWrite⟩

/-- A transaction that is done one cycle after it was added. -/
def prompt (s : Controller c) (addr : Addr) (isWrite : Bool) : Transaction :=
  ⟨addr, s.clk, s.clk + 1, isWrite⟩

/-- What `AddTransaction` does: a write goes to its queue or joins the pending one of its address,
and is done; a read of an address with a pending write is done; the first pending read of an address
goes to its queue, and the others wait for it. -/
inductive Added (s : Controller c) (addr : Addr) : Bool → Controller c → Prop
  | write (hfree : countAddr addr s.pendingWrQ = 0) :
      Added s addr true (setQueue
        { s with
          pendingWrQ := s.pendingWrQ ++ [s.fresh addr true]
          returnQueue := s.returnQueue ++ [s.prompt addr true] }
        (s.queue (destination c true) ++ [s.fresh addr true]) (destination c true))
  | merge (hpending : countAddr addr s.pendingWrQ ≠ 0) :
      Added s addr true { s with returnQueue := s.returnQueue ++ [s.prompt addr true] }
  | forward (hpending : countAddr addr s.pendingWrQ ≠ 0) :
      Added s addr false { s with returnQueue := s.returnQueue ++ [s.prompt addr false] }
  | read (hfree : countAddr addr s.pendingWrQ = 0) (hfirst : countAddr addr s.pendingRdQ = 0) :
      Added s addr false (setQueue
        { s with pendingRdQ := s.pendingRdQ ++ [s.fresh addr false] }
        (s.queue (destination c false) ++ [s.fresh addr false]) (destination c false))
  | join (hfree : countAddr addr s.pendingWrQ = 0) (hpending : countAddr addr s.pendingRdQ ≠ 0) :
      Added s addr false { s with pendingRdQ := s.pendingRdQ ++ [s.fresh addr false] }

@[simp] theorem setQueue_withReturnQueue (s : Controller c) (ts queue : List Transaction)
    (src : Source) :
    { s.setQueue queue src with returnQueue := ts } =
      setQueue { s with returnQueue := ts } queue src := by
  cases src <;> rfl

theorem countAddr_append_fresh (s : Controller c) (addr : Addr) (isWrite : Bool)
    (ts : List Transaction) :
    countAddr addr (ts ++ [s.fresh addr isWrite]) = countAddr addr ts + 1 := by
  simp [countAddr, fresh]

theorem addTransaction_added (s : Controller c) (addr : Addr) (isWrite : Bool) :
    Added s addr isWrite (s.addTransaction addr isWrite) := by
  unfold addTransaction
  dsimp only
  cases isWrite with
  | true =>
    rw [if_pos rfl]
    split
    · rename_i hfree
      rw [enqueue_eq]
      have hadded := Added.write (s := s) hfree
      cases hdest : destination c true <;> rw [hdest] at hadded <;> exact hadded
    · rename_i hpending
      exact .merge hpending
  | false =>
    rw [if_neg (by simp)]
    split
    · rename_i hpending
      exact .forward (Nat.pos_iff_ne_zero.mp hpending)
    · rename_i hfree
      have hfree := Nat.eq_zero_of_not_pos hfree
      have hcount := countAddr_append_fresh s addr false s.pendingRdQ
      split
      · rename_i hone
        have hfirst : countAddr addr s.pendingRdQ = 0 := by
          have hone : countAddr addr (s.pendingRdQ ++ [s.fresh addr false]) = 1 := hone
          omega
        rw [enqueue_eq]
        have hadded := Added.read (s := s) hfree hfirst
        cases hdest : destination c false <;> rw [hdest] at hadded <;> exact hadded
      · rename_i hmore
        refine .join hfree fun hfirst => hmore ?_
        show countAddr addr (s.pendingRdQ ++ [s.fresh addr false]) = 1
        omega

/-- What `ReturnDoneTrans` does. -/
theorem returnDoneTrans_eq {clk : Nat} {t : Transaction}
    (h : s.returnDoneTrans clk = some (t, s')) :
    ∃ before after, s.returnQueue = before ++ t :: after ∧ t.completeCycle ≤ clk ∧
      s' = { s with returnQueue := before ++ after } := by
  unfold returnDoneTrans at h
  split at h
  · cases h
  · rename_i u hfind
    cases h
    obtain ⟨hdone, before, after, hqueue, hbefore⟩ := List.find?_eq_some_iff_append.mp hfind
    refine ⟨before, after, hqueue, by simpa using hdone, ?_⟩
    congr 1
    rw [hqueue, List.eraseP_append_right _ (by simpa using hbefore)]
    simp only [List.eraseP_cons, hdone, cond_true]

/-! ## Runs -/

/-- What happens to a controller: a transaction that it accepts is added, one that is done is
returned, or a cycle passes. -/
inductive Action
  | add (addr : Addr) (isWrite : Bool)
  | returnDone (clk : Nat)
  | tick

def step (s : Controller c) : Action → Option (Controller c)
  | .add addr isWrite =>
    if s.willAcceptTransaction isWrite then some (s.addTransaction addr isWrite) else none
  | .returnDone clk => (s.returnDoneTrans clk).map Prod.snd
  | .tick => s.clockTick.toOption

/-- The states that a controller reaches. -/
def Run : Controller c → Prop := Reach (Steps step) Free init

theorem inStep_init : InStep (init : Controller c) := ⟨rfl, by simp [init, ChannelState.init]⟩

/-- A new transaction changes the queues of transactions only. -/
theorem Added.frame {addr : Addr} {isWrite : Bool} (h : Added s addr isWrite s') :
    s'.clk = s.clk ∧ s'.channelState = s.channelState ∧ s'.cmdQueue = s.cmdQueue ∧
      s'.refresh = s.refresh ∧ s'.cmdTrace = s.cmdTrace := by
  cases h with
  | write | read => cases destination c _ <;> exact ⟨rfl, rfl, rfl, rfl, rfl⟩
  | merge | forward | join => exact ⟨rfl, rfl, rfl, rfl, rfl⟩

theorem Added.inStep {addr : Addr} {isWrite : Bool} (h : Added s addr isWrite s') (hs : InStep s) :
    InStep s' := by
  obtain ⟨hclk, hstate, hqueue, -, -⟩ := h.frame
  refine ⟨?_, ?_⟩
  · rw [hclk, hqueue]
    exact hs.clk
  · rw [hstate]
    exact hs.refreshes

/-- What moves, new transactions and returned transactions keep holds in every run. -/
theorem Run.invariant (I : Controller c → Prop) (hinit : I init)
    (hmove : ∀ s s', InStep s → I s → Move s s' → I s')
    (hadd : ∀ s addr isWrite s', I s → s.willAcceptTransaction isWrite = true →
      Added s addr isWrite s' → I s')
    (hreturn : ∀ s before t after, I s → s.returnQueue = before ++ t :: after →
      I { s with returnQueue := before ++ after })
    (h : Run s) : I s ∧ InStep s := by
  refine Reach.invariant (fun s => I s ∧ InStep s) ⟨hinit, inStep_init⟩ ?_ h
  rintro s action s' - ⟨hI, hs⟩ - hstep
  cases action with
  | add addr isWrite =>
    unfold Steps step at hstep
    dsimp only at hstep
    split at hstep
    · rename_i haccept
      cases hstep
      have hadded := addTransaction_added s addr isWrite
      exact ⟨hadd s addr isWrite _ hI haccept hadded, hadded.inStep hs⟩
    · cases hstep
  | returnDone clk =>
    unfold Steps step at hstep
    obtain ⟨⟨t, u⟩, hreturned, rfl⟩ := Option.map_eq_some_iff.mp hstep
    obtain ⟨before, after, hqueue, -, rfl⟩ := returnDoneTrans_eq hreturned
    exact ⟨hreturn s before t after hI hqueue, hs.clk, hs.refreshes⟩
  | tick =>
    have hticked := clockTick_moves hs (ok_of_toOption hstep)
    exact ⟨hticked.keeps I hmove hs hI, hticked.inStep hs⟩

/-- Two reads of a row with the configuration of `main`. -/
theorem run_two_reads : ∃ s : Controller .hbm2, Run s ∧
    s.cmdTrace.map (fun e => (e.clk, e.cmd.cmdType)) =
      [(17, .read), (15, .read), (1, .activate)] := by
  obtain ⟨s, hs, hp⟩ := Reach.of_run step Free (init : Controller .hbm2)
    (.add 64 false :: .add 576 false :: List.replicate 18 .tick)
    (fun s => s.cmdTrace.map (fun e => (e.clk, e.cmd.cmdType)) =
      [(17, .read), (15, .read), (1, .activate)]) (by decide +kernel)
  exact ⟨s, hs, of_decide_eq_true hp⟩

end Controller

end NetSim.Memory
