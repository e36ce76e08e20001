import NetSim.Memory.DRAMSystem
import NetSim.Memory.Progress
import NetSim.Memory.Service
import NetSim.System.Traffic
import Mathlib.Algebra.BigOperators.Fin

/-!
# The callbacks of the memory system

A cycle of `JedecDRAMSystem` first asks every controller for the transactions that are done and then
ticks all of them. In every run each accepted transaction is reported at most once and until then it
is in flight, nothing else is reported (`callbacks_exactly_once`), and the cycle of a callback is
determined by the cycle in which the transaction was accepted or its `READ` was issued
(`callbacks_timely`). Without self refresh no run ends the program (`memory_never_exits`).
-/

namespace NetSim.Memory

open Common Library NetSim.System

variable {c : Config}

namespace JedecDRAMSystem

/-! ## The loops of a cycle -/

/-- The loop around `ReturnDoneTrans` takes all transactions that are done. -/
theorem returnFrom_eq (clk : Nat) (fuel : Nat) (k : Controller c)
    (hfuel : k.returnQueue.countP (fun t => t.completeCycle ≤ clk) ≤ fuel) :
    returnFrom clk fuel k = (k.returnQueue.filter fun t => t.completeCycle ≤ clk,
      { k with returnQueue := k.returnQueue.filter fun t => !decide (t.completeCycle ≤ clk) }) := by
  induction fuel generalizing k with
  | zero =>
    have hlate := List.countP_eq_zero.mp (Nat.le_zero.mp hfuel)
    have hrest : (k.returnQueue.filter fun t => !decide (t.completeCycle ≤ clk)) = k.returnQueue :=
      List.filter_eq_self.mpr fun t ht => by simpa using hlate t ht
    rw [List.filter_eq_nil_iff.mpr hlate, hrest]
    rfl
  | succ fuel ih =>
    unfold returnFrom Controller.returnDoneTrans
    cases hfind : k.returnQueue.find? fun t => t.completeCycle ≤ clk with
    | none =>
      have hlate := List.find?_eq_none.mp hfind
      have hrest : (k.returnQueue.filter fun t => !decide (t.completeCycle ≤ clk)) =
          k.returnQueue :=
        List.filter_eq_self.mpr fun t ht => by simpa using hlate t ht
      rw [List.filter_eq_nil_iff.mpr hlate, hrest]
    | some t =>
      -- those before `t` are not done
      obtain ⟨hdone, before, after, hqueue, hbefore⟩ := List.find?_eq_some_iff_append.mp hfind
      have hnone : (before.filter fun t => t.completeCycle ≤ clk) = [] :=
        List.filter_eq_nil_iff.mpr fun x hx => by simpa using hbefore x hx
      have herase : (k.returnQueue.eraseP fun t => t.completeCycle ≤ clk) = before ++ after := by
        rw [hqueue, List.eraseP_append_right _ (by simpa using hbefore)]
        simp only [List.eraseP_cons, hdone, cond_true]
      have hcount : (before ++ after).countP (fun t => t.completeCycle ≤ clk) ≤ fuel := by
        rw [hqueue, List.countP_append, List.countP_cons, if_pos hdone] at hfuel
        rw [List.countP_append]
        omega
      dsimp only
      rw [herase, ih { k with returnQueue := before ++ after } hcount]
      simp [hqueue, hnone, of_decide_eq_true hdone]

/-- The loop of a cycle. -/
theorem returnDone_eq (clk : Nat) (k : Controller c) :
    returnDone clk k = (k.returnQueue.filter fun t => t.completeCycle ≤ clk,
      { k with returnQueue := k.returnQueue.filter fun t => !decide (t.completeCycle ≤ clk) }) :=
  returnFrom_eq clk _ k List.countP_le_length

variable {s s' : JedecDRAMSystem c}

/-- The loop over the controllers ticks each of them once. -/
theorem foldlM_tickCtrl {is : List (Fin c.channels)} (hnodup : is.Nodup)
    (h : is.foldlM tickCtrl s = .ok s') :
    s'.clk = s.clk ∧ (∀ i ∈ is, (s.ctrls i).clockTick = .ok (s'.ctrls i)) ∧
      ∀ i, i ∉ is → s'.ctrls i = s.ctrls i := by
  induction is generalizing s with
  | nil =>
    cases h
    exact ⟨rfl, by simp, fun _ _ => rfl⟩
  | cons i is ih =>
    obtain ⟨hi, hnodup⟩ := List.nodup_cons.mp hnodup
    rw [List.foldlM_cons] at h
    unfold tickCtrl at h
    split at h
    · cases h
    · rename_i k hk
      obtain ⟨hclk, hticked, hother⟩ := ih hnodup h
      refine ⟨hclk, fun j hj => ?_, fun j hj => ?_⟩
      · rcases List.mem_cons.mp hj with rfl | hj
        · rw [hk, hother j hi]
          simp
        · have hne : j ≠ i := fun heq => hi (heq ▸ hj)
          have hj := hticked j hj
          dsimp only at hj
          rwa [Function.update_of_ne hne] at hj
      · have hne : j ≠ i := by
          rintro rfl
          exact hj List.mem_cons_self
        rw [hother j fun hmem => hj (List.mem_cons_of_mem _ hmem)]
        exact Function.update_of_ne hne _ _

theorem foldlM_tickCtrl_returns {is : List (Fin c.channels)} (hnodup : is.Nodup)
    (h : ∀ i ∈ is, ∃ k, (s.ctrls i).clockTick = .ok k) : ∃ s', is.foldlM tickCtrl s = .ok s' := by
  induction is generalizing s with
  | nil => exact ⟨s, rfl⟩
  | cons i is ih =>
    obtain ⟨hi, hnodup⟩ := List.nodup_cons.mp hnodup
    obtain ⟨k, hk⟩ := h i List.mem_cons_self
    rw [List.foldlM_cons]
    unfold tickCtrl
    rw [hk]
    refine ih hnodup fun j hj => ?_
    have hne : j ≠ i := fun heq => hi (heq ▸ hj)
    obtain ⟨k', hk'⟩ := h j (List.mem_cons_of_mem _ hj)
    refine ⟨k', ?_⟩
    dsimp only
    rwa [Function.update_of_ne hne]

/-- A cycle of the memory system is a cycle of every controller. -/
theorem clockTick_ok (h : s.clockTick = .ok s') :
    s'.clk = s.clk + 1 ∧ ∀ i, (returnDone s.clk (s.ctrls i)).2.clockTick = .ok (s'.ctrls i) := by
  unfold clockTick at h
  dsimp only at h
  split at h
  · cases h
  · rename_i t hfold
    cases h
    obtain ⟨hclk, hticked, -⟩ := foldlM_tickCtrl (List.nodup_finRange _) hfold
    exact ⟨congrArg (· + 1) hclk, fun i => hticked i (List.mem_finRange i)⟩

theorem clockTick_returns (h : ∀ i, ∃ k, (returnDone s.clk (s.ctrls i)).2.clockTick = .ok k) :
    ∃ s', s.clockTick = .ok s' := by
  have hreturns := @foldlM_tickCtrl_returns c
    { s with ctrls := fun i => (returnDone s.clk (s.ctrls i)).2 } _ (List.nodup_finRange _)
    fun i _ => h i
  obtain ⟨t, ht⟩ := hreturns
  unfold clockTick
  dsimp only
  rw [ht]
  exact ⟨_, rfl⟩

end JedecDRAMSystem

/-! ## What is in flight -/

/-- A transaction and the cycle in which it was accepted. -/
def Transaction.arrival (t : Transaction) : Nat × Completion := (t.addedCycle, t.completion)

namespace Controller

variable {s t : Controller c}

/-- The transactions that have been accepted and not been reported. -/
def inFlight (s : Controller c) : Multiset (Nat × Completion) :=
  ((s.returnQueue ++ s.pendingRdQ).map Transaction.arrival : List (Nat × Completion))

theorem Serves.inFlight (h : Serves s t) : t.inFlight = s.inFlight := by
  obtain ⟨done, hreturn, hperm, -⟩ := h.done
  unfold Controller.inFlight
  have harrival : (done.map (answered c s.clk)).map Transaction.arrival =
      done.map Transaction.arrival := by
    rw [List.map_map]
    rfl
  have hmap := hperm.map Transaction.arrival
  rw [List.map_append, ← harrival] at hmap
  rw [hreturn, Multiset.coe_eq_coe]
  simp only [List.map_append, List.append_assoc]
  exact hmap.append_left _

theorem clockTick_inFlight (h : s.clockTick = .ok t) : t.inFlight = s.inFlight := by
  obtain ⟨-, u, hserves, -, -, hreturn, hread⟩ := clockTick_serves h
  have hsame : u.inFlight = s.inFlight := hserves.inFlight
  rw [← hsame, Controller.inFlight, Controller.inFlight, hreturn, hread]

@[simp] theorem addTransaction_clk (s : Controller c) (a : Addr) (w : Bool) :
    (s.addTransaction a w).clk = s.clk :=
  (addTransaction_added s a w).frame.1

@[simp] theorem addTransaction_cmdTrace (s : Controller c) (a : Addr) (w : Bool) :
    (s.addTransaction a w).cmdTrace = s.cmdTrace :=
  (addTransaction_added s a w).frame.2.2.2.2

/-- A transaction that is accepted is in flight. -/
theorem addTransaction_inFlight (s : Controller c) (a : Addr) (w : Bool) :
    (s.addTransaction a w).inFlight = (s.clk, ⟨a, w⟩) ::ₘ s.inFlight := by
  have hadded := addTransaction_added s a w
  generalize s.addTransaction a w = t at hadded
  have hreturned {ts : List Transaction} {x : Transaction} :
      (((s.returnQueue ++ [x] ++ ts).map Transaction.arrival : List _) : Multiset _) =
        x.arrival ::ₘ ((s.returnQueue ++ ts).map Transaction.arrival : List _) := by
    rw [Multiset.cons_coe, Multiset.coe_eq_coe]
    simp
  have hwaiting {x : Transaction} :
      (((s.returnQueue ++ (s.pendingRdQ ++ [x])).map Transaction.arrival : List _) : Multiset _) =
        x.arrival ::ₘ ((s.returnQueue ++ s.pendingRdQ).map Transaction.arrival : List _) := by
    rw [Multiset.cons_coe, Multiset.coe_eq_coe, ← List.append_assoc]
    exact (List.perm_append_singleton x _).map _
  cases hadded with
  | merge | forward => exact hreturned
  | join => exact hwaiting
  | write => cases destination c true <;> exact hreturned
  | read => cases destination c false <;> exact hwaiting

/-- What the loop of a cycle reports is no longer in flight. -/
theorem returnDone_inFlight (clk : Nat) (s : Controller c) :
    (((JedecDRAMSystem.returnDone clk s).1.map Transaction.arrival : List _) : Multiset _) +
      (JedecDRAMSystem.returnDone clk s).2.inFlight = s.inFlight := by
  rw [JedecDRAMSystem.returnDone_eq]
  unfold Controller.inFlight
  rw [Multiset.coe_add, Multiset.coe_eq_coe, ← List.map_append, ← List.append_assoc]
  exact ((List.filter_append_perm _ _).append_right _).map _

/-! ## The cycle in which a transaction is done -/

/-- A transaction is done one cycle after it was accepted, or it is a read and is done `read_delay`
cycles after a `READ` of its address. -/
def Justified (trace : List (Issued c)) (t : Transaction) : Prop :=
  t.completeCycle = t.addedCycle + 1 ∨
    t.isWrite = false ∧ ∃ clk, t.addedCycle ≤ clk ∧ (t.completeCycle : Int) = clk + c.readDelay ∧
      ReadAt trace clk t.addr

theorem Justified.mono {trace trace' : List (Issued c)} {t : Transaction} (h : Justified trace t)
    (htrace : trace <:+ trace') : Justified trace' t := by
  rcases h with h | ⟨hread, clk, hadded, hdone, hissued⟩
  · exact Or.inl h
  · exact Or.inr ⟨hread, clk, hadded, hdone, hissued.mono htrace⟩

/-- The transactions of the channel `i` that are in flight, before a cycle. -/
structure Timely (i : Fin c.channels) (s : Controller c) : Prop where
  returned : ∀ t ∈ s.returnQueue,
    c.getChannel t.addr = i ∧ s.clk ≤ t.completeCycle ∧ Justified s.cmdTrace t
  pending : ∀ t ∈ s.pendingRdQ,
    c.getChannel t.addr = i ∧ t.isWrite = false ∧ t.addedCycle ≤ s.clk

namespace Timely

variable {i : Fin c.channels}

theorem append_prompt {a : Addr} {w : Bool} (h : Timely i s) (ha : c.getChannel a = i) :
    ∀ x ∈ s.returnQueue ++ [s.prompt a w],
      c.getChannel x.addr = i ∧ s.clk ≤ x.completeCycle ∧ Justified s.cmdTrace x := by
  intro x hx
  rcases List.mem_append.mp hx with hx | hx
  · exact h.returned x hx
  · rw [List.mem_singleton.mp hx]
    exact ⟨ha, Nat.le_succ _, Or.inl rfl⟩

theorem append_fresh {a : Addr} (h : Timely i s) (ha : c.getChannel a = i) :
    ∀ x ∈ s.pendingRdQ ++ [s.fresh a false],
      c.getChannel x.addr = i ∧ x.isWrite = false ∧ x.addedCycle ≤ s.clk := by
  intro x hx
  rcases List.mem_append.mp hx with hx | hx
  · exact h.pending x hx
  · rw [List.mem_singleton.mp hx]
    exact ⟨ha, rfl, le_refl _⟩

theorem added {a : Addr} {w : Bool} (h : Timely i s) (ha : c.getChannel a = i)
    (hadd : Added s a w t) : Timely i t := by
  cases hadd with
  | merge | forward => exact ⟨h.append_prompt ha, h.pending⟩
  | join => exact ⟨h.returned, h.append_fresh ha⟩
  | write => cases destination c true <;> exact ⟨h.append_prompt ha, h.pending⟩
  | read => cases destination c false <;> exact ⟨h.returned, h.append_fresh ha⟩

/-- A cycle takes what is done from the return queue and adds what is done later. -/
theorem tick (h : Timely i s) (hdelay : 0 < c.readDelay)
    (htick : (JedecDRAMSystem.returnDone s.clk s).2.clockTick = .ok t) :
    Timely i t ∧ s.cmdTrace <:+ t.cmdTrace := by
  rw [JedecDRAMSystem.returnDone_eq] at htick
  obtain ⟨hclk, u, hserves, -, htrace, hreturn, hread⟩ := clockTick_serves htick
  obtain ⟨done, hdone, hperm, hissued⟩ := hserves.done
  have hsuffix : s.cmdTrace <:+ t.cmdTrace := by
    rw [← htrace]
    exact hserves.trace
  dsimp only at hclk hdone hperm hissued
  rw [hread] at hperm
  refine ⟨⟨fun x hx => ?_, fun x hx => ?_⟩, hsuffix⟩
  · rw [← hreturn, hdone] at hx
    rcases List.mem_append.mp hx with hx | hx
    · obtain ⟨hx, hlate⟩ := List.mem_filter.mp hx
      obtain ⟨hchannel, -, hjustified⟩ := h.returned x hx
      have hlate : ¬ x.completeCycle ≤ s.clk := by simpa using hlate
      exact ⟨hchannel, by omega, hjustified.mono hsuffix⟩
    · obtain ⟨y, hy, rfl⟩ := List.mem_map.mp hx
      obtain ⟨hchannel, hwrite, hadded⟩ := h.pending y (hperm.subset (List.mem_append_left _ hy))
      have hcycle : (addDelay s.clk c.readDelay : Int) = s.clk + c.readDelay :=
        addDelay_eq hdelay.le
      have hread := hissued y hy
      rw [htrace] at hread
      refine ⟨hchannel, ?_, Or.inr ⟨hwrite, s.clk, hadded, hcycle, hread⟩⟩
      show t.clk ≤ addDelay s.clk c.readDelay
      omega
  · obtain ⟨hchannel, hwrite, hadded⟩ := h.pending x (hperm.subset (List.mem_append_right _ hx))
    exact ⟨hchannel, hwrite, by omega⟩

end Timely

end Controller

namespace JedecDRAMSystem

variable {s s' : JedecDRAMSystem c}

def inFlight (s : JedecDRAMSystem c) : Multiset (Nat × Completion) :=
  ∑ i, (s.ctrls i).inFlight

theorem addTransaction_ok {a : Addr} {w : Bool} (h : s.addTransaction a w = .ok s') :
    (s.ctrls (c.getChannel a)).willAcceptTransaction w = true ∧
      s' = { s with
        ctrls := Function.update s.ctrls (c.getChannel a)
          ((s.ctrls (c.getChannel a)).addTransaction a w) } := by
  unfold addTransaction at h
  dsimp only at h
  split at h
  · rename_i haccept
    cases h
    exact ⟨haccept, rfl⟩
  · cases h

theorem addTransaction_inFlight {a : Addr} {w : Bool} (h : s.addTransaction a w = .ok s') :
    s'.inFlight = ((s.ctrls (c.getChannel a)).clk, ⟨a, w⟩) ::ₘ s.inFlight := by
  obtain ⟨-, rfl⟩ := addTransaction_ok h
  have hupdate (j : Fin c.channels) :
      (Function.update s.ctrls (c.getChannel a)
        ((s.ctrls (c.getChannel a)).addTransaction a w) j).inFlight =
      Function.update (fun j => (s.ctrls j).inFlight) (c.getChannel a)
        (((s.ctrls (c.getChannel a)).clk, ⟨a, w⟩) ::ₘ (s.ctrls (c.getChannel a)).inFlight) j := by
    rw [Function.apply_update fun _ => Controller.inFlight, Controller.addTransaction_inFlight]
  unfold inFlight
  simp only [hupdate]
  rw [Finset.sum_update_of_mem (Finset.mem_univ _), Multiset.cons_add,
    Finset.sum_eq_add_sum_sdiff_singleton_of_mem (Finset.mem_univ (c.getChannel a))
      fun j => (s.ctrls j).inFlight]

theorem reported_arrivals (s : JedecDRAMSystem c) :
    ((s.reported.map Transaction.arrival : List _) : Multiset _) =
      ∑ i, (((returnDone s.clk (s.ctrls i)).1.map Transaction.arrival : List (Nat × Completion)) :
        Multiset (Nat × Completion)) := by
  unfold reported
  rw [Fin.sum_univ_def]
  induction List.finRange c.channels with
  | nil => rfl
  | cons i is ih =>
    rw [List.flatMap_cons, List.map_append, ← Multiset.coe_add, ih, List.map_cons, List.sum_cons]

theorem reported_inFlight (s : JedecDRAMSystem c) :
    ((s.reported.map Transaction.arrival : List _) : Multiset _) +
      ∑ i, (returnDone s.clk (s.ctrls i)).2.inFlight = s.inFlight := by
  unfold inFlight
  rw [reported_arrivals, ← Finset.sum_add_distrib]
  exact Finset.sum_congr rfl fun i _ => Controller.returnDone_inFlight _ _

/-- What a cycle reports is no longer in flight. -/
theorem clockTick_inFlight (h : s.clockTick = .ok s') :
    ((s.reported.map Transaction.arrival : List _) : Multiset _) + s'.inFlight = s.inFlight := by
  obtain ⟨-, hticked⟩ := clockTick_ok h
  rw [← reported_inFlight s]
  unfold inFlight
  exact congrArg _ (Finset.sum_congr rfl fun i _ => Controller.clockTick_inFlight (hticked i))

/-! ## Runs -/

/-- A run of the memory system: the transactions that it accepted and the transactions that it
reported, each with the cycle. -/
inductive History : JedecDRAMSystem c → List (Nat × Completion) → List (Nat × Transaction) → Prop
  | start : History init [] []
  | add {s s' : JedecDRAMSystem c} {accepted : List (Nat × Completion)}
      {reported : List (Nat × Transaction)} {a : Addr} {w : Bool}
      (prior : History s accepted reported) (hadd : s.addTransaction a w = .ok s') :
      History s' (accepted ++ [(s.clk, ⟨a, w⟩)]) reported
  | tick {s s' : JedecDRAMSystem c} {accepted : List (Nat × Completion)}
      {reported : List (Nat × Transaction)} (prior : History s accepted reported)
      (htick : s.clockTick = .ok s') :
      History s' accepted (reported ++ s.reported.map fun t => (s.clk, t))

variable {accepted : List (Nat × Completion)} {reported : List (Nat × Transaction)}

/-- One step of a run, for concrete runs: a transaction is added, or a cycle passes. -/
def record (x : JedecDRAMSystem c × List (Nat × Completion) × List (Nat × Transaction)) :
    Option (Addr × Bool) →
      Option (JedecDRAMSystem c × List (Nat × Completion) × List (Nat × Transaction))
  | some (a, w) =>
    (x.1.addTransaction a w).toOption.map fun s => (s, x.2.1 ++ [(x.1.clk, ⟨a, w⟩)], x.2.2)
  | none =>
    x.1.clockTick.toOption.map fun s =>
      (s, x.2.1, x.2.2 ++ x.1.reported.map fun t => (x.1.clk, t))

theorem History.of_reach
    {x : JedecDRAMSystem c × List (Nat × Completion) × List (Nat × Transaction)}
    (h : Reach (Steps record) Free (init, [], []) x) : History x.1 x.2.1 x.2.2 := by
  refine h.invariant (fun x => History x.1 x.2.1 x.2.2) .start ?_
  intro x action y _ hx _ hstep
  cases action with
  | some t =>
    obtain ⟨s, hadd, rfl⟩ := Option.map_eq_some_iff.mp hstep
    exact hx.add (ok_of_toOption hadd)
  | none =>
    obtain ⟨s, htick, rfl⟩ := Option.map_eq_some_iff.mp hstep
    exact hx.tick (ok_of_toOption htick)

/-- With the configuration of `main`, a write is reported in the next cycle, and a read of an idle
bank after 31 cycles: the activation, the read, and `read_delay`. -/
theorem history_read_write : ∃ (s : JedecDRAMSystem .hbm2) (accepted : List (Nat × Completion))
    (reported : List (Nat × Transaction)), History s accepted reported ∧ accepted.length = 2 ∧
      reported = [(1, ⟨128, 0, 1, true⟩), (31, ⟨64, 0, 31, false⟩)] := by
  obtain ⟨x, hx, hp⟩ := Reach.of_run record Free ((init : JedecDRAMSystem .hbm2), [], [])
    (some (64, false) :: some (128, true) :: List.replicate 32 none)
    (fun x => x.2.1.length = 2 ∧
      x.2.2 = [(1, ⟨128, 0, 1, true⟩), (31, ⟨64, 0, 31, false⟩)]) (by decide +kernel)
  obtain ⟨haccepted, hreported⟩ := of_decide_eq_true hp
  exact ⟨x.1, x.2.1, x.2.2, .of_reach hx, haccepted, hreported⟩

/-- The controllers keep the time of the system. -/
theorem History.clk (h : History s accepted reported) (i : Fin c.channels) :
    (s.ctrls i).clk = s.clk := by
  induction h with
  | start => rfl
  | @add s s' _ _ a w _ hadd ih =>
    obtain ⟨-, rfl⟩ := addTransaction_ok hadd
    dsimp only
    by_cases hi : i = c.getChannel a
    · subst hi
      rw [Function.update_self, Controller.addTransaction_clk, ih]
    · rw [Function.update_of_ne hi, ih]
  | @tick s s' _ _ _ htick ih =>
    obtain ⟨hclk, hticked⟩ := clockTick_ok htick
    rw [(Controller.clockTick_serves (hticked i)).1, returnDone_eq, hclk]
    exact congrArg (· + 1) ih

/-- **Every callback belongs to one accepted transaction.** In every run the accepted transactions
are those that have been reported and those that are in flight. -/
theorem callbacks_exactly_once (h : History s accepted reported) :
    (accepted : Multiset (Nat × Completion)) =
      ((reported.map fun x => x.2.arrival : List (Nat × Completion)) : Multiset _) +
        s.inFlight := by
  induction h with
  | start => simp [inFlight, Controller.inFlight, init, Controller.init]
  | @add s s' accepted reported a w prior hadd ih =>
    rw [addTransaction_inFlight hadd, prior.clk, Multiset.add_cons, ← ih, Multiset.cons_coe,
      Multiset.coe_eq_coe]
    exact List.perm_append_singleton _ _
  | @tick s s' accepted reported prior htick ih =>
    rw [List.map_append, List.map_map, ← Multiset.coe_add, add_assoc, ih]
    exact congrArg _ (clockTick_inFlight htick).symm

theorem callbacks_exactly_once_read_write : ∃ (s : JedecDRAMSystem .hbm2)
    (accepted : List (Nat × Completion)) (reported : List (Nat × Transaction)),
    History s accepted reported ∧ accepted.length = 2 ∧ reported.length = 2 ∧
      (accepted : Multiset (Nat × Completion)) =
        ((reported.map fun x => x.2.arrival : List (Nat × Completion)) : Multiset _) +
          s.inFlight := by
  obtain ⟨s, accepted, reported, h, haccepted, hreported⟩ := history_read_write
  exact ⟨s, accepted, reported, h, haccepted, by rw [hreported]; rfl, callbacks_exactly_once h⟩

/-- What the callbacks of a run are like, and what is in flight. -/
theorem History.timely (hdelay : 0 < c.readDelay) (h : History s accepted reported) :
    (∀ i, (s.ctrls i).Timely i) ∧
      ∀ x ∈ reported, x.1 = x.2.completeCycle ∧
        Controller.Justified (s.ctrls (c.getChannel x.2.addr)).cmdTrace x.2 := by
  induction h with
  | start =>
    refine ⟨fun i => ⟨?_, ?_⟩, by simp⟩
    all_goals simp [init, Controller.init]
  | @add s s' accepted reported a w prior hadd ih =>
    obtain ⟨htimely, hreported⟩ := ih
    obtain ⟨-, rfl⟩ := addTransaction_ok hadd
    have hadded := Controller.addTransaction_added (s.ctrls (c.getChannel a)) a w
    refine ⟨fun i => ?_, fun x hx => ⟨(hreported x hx).1, ?_⟩⟩
    · dsimp only
      by_cases hi : i = c.getChannel a
      · subst hi
        rw [Function.update_self]
        exact (htimely _).added rfl hadded
      · rw [Function.update_of_ne hi]
        exact htimely i
    · have hjustified := (hreported x hx).2
      dsimp only
      by_cases hi : c.getChannel x.2.addr = c.getChannel a
      · rw [hi, Function.update_self, Controller.addTransaction_cmdTrace, ← hi]
        exact hjustified
      · rw [Function.update_of_ne hi]
        exact hjustified
  | @tick s s' accepted reported prior htick ih =>
    obtain ⟨htimely, hreported⟩ := ih
    obtain ⟨-, hticked⟩ := clockTick_ok htick
    have hctrl (i : Fin c.channels) :
        (s'.ctrls i).Timely i ∧ (s.ctrls i).cmdTrace <:+ (s'.ctrls i).cmdTrace := by
      refine (htimely i).tick hdelay ?_
      rw [prior.clk]
      exact hticked i
    refine ⟨fun i => (hctrl i).1, fun x hx => ?_⟩
    rcases List.mem_append.mp hx with hx | hx
    · obtain ⟨hcycle, hjustified⟩ := hreported x hx
      exact ⟨hcycle, hjustified.mono (hctrl _).2⟩
    · -- a callback of this cycle: the transaction was done, and not before this cycle
      obtain ⟨t, ht, rfl⟩ := List.mem_map.mp hx
      obtain ⟨i, -, ht⟩ := List.mem_flatMap.mp ht
      rw [returnDone_eq] at ht
      obtain ⟨ht, hdone⟩ := List.mem_filter.mp ht
      obtain ⟨rfl, hcycle, hjustified⟩ := (htimely i).returned t ht
      have hdone : t.completeCycle ≤ s.clk := by simpa using hdone
      rw [prior.clk] at hcycle
      exact ⟨by dsimp only; omega, hjustified.mono (hctrl _).2⟩

/-- **The cycle of a callback.** In every run, with a positive `read_delay`, a transaction is
reported one cycle after it was accepted, or it is a read and is reported `read_delay` cycles after
a `READ` of its address that was issued when the read was pending. -/
theorem callbacks_timely (hdelay : 0 < c.readDelay) (h : History s accepted reported) {clk : Nat}
    {t : Transaction} (ht : (clk, t) ∈ reported) :
    clk = t.addedCycle + 1 ∨
      t.isWrite = false ∧ ∃ issue, t.addedCycle ≤ issue ∧ (clk : Int) = issue + c.readDelay ∧
        Controller.ReadAt (s.ctrls (c.getChannel t.addr)).cmdTrace issue t.addr := by
  obtain ⟨hcycle, hjustified⟩ := (h.timely hdelay).2 _ ht
  have hcycle : clk = t.completeCycle := hcycle
  rw [hcycle]
  exact hjustified

/-- The read of cycle 0 is reported in the cycle 31, so its `READ` was issued in the cycle 15. -/
theorem callbacks_timely_read_write : ∃ s : JedecDRAMSystem .hbm2,
    (∃ accepted, History s accepted [(1, ⟨128, 0, 1, true⟩), (31, ⟨64, 0, 31, false⟩)]) ∧
      ∃ issue : Nat, (31 : Int) = issue + 16 ∧
        Controller.ReadAt (s.ctrls (Config.hbm2.getChannel 64)).cmdTrace issue 64 := by
  obtain ⟨s, accepted, reported, h, -, rfl⟩ := history_read_write
  have hdelay : Config.hbm2.readDelay = 16 := by decide
  have hmem : ((31, ⟨64, 0, 31, false⟩) : Nat × Transaction) ∈
      [(1, ⟨128, 0, 1, true⟩), (31, ⟨64, 0, 31, false⟩)] := by simp
  rcases callbacks_timely (by rw [hdelay]; decide) h hmem with hnext | ⟨-, issue, -, hcycle, hread⟩
  · cases hnext
  · rw [hdelay] at hcycle
    exact ⟨s, ⟨accepted, h⟩, issue, hcycle, hread⟩

/-! ## The runs of the controllers -/

theorem returnFrom_run (clk fuel : Nat) {k : Controller c} (h : k.Run) :
    (returnFrom clk fuel k).2.Run := by
  induction fuel generalizing k with
  | zero => exact h
  | succ fuel ih =>
    unfold returnFrom
    split
    · exact h
    · rename_i t k' hreturn
      refine ih (.next (.returnDone clk) h trivial ?_)
      unfold Steps Controller.step
      dsimp only
      rw [hreturn]
      rfl

/-- In a run of the memory system every controller runs. -/
theorem History.run (h : History s accepted reported) (i : Fin c.channels) : (s.ctrls i).Run := by
  induction h with
  | start => exact .start
  | @add s s' _ _ a w _ hadd ih =>
    obtain ⟨haccept, rfl⟩ := addTransaction_ok hadd
    dsimp only
    by_cases hi : i = c.getChannel a
    · subst hi
      rw [Function.update_self]
      exact .next (.add a w) ih trivial (if_pos haccept)
    · rw [Function.update_of_ne hi]
      exact ih
  | @tick s s' _ _ _ htick ih =>
    obtain ⟨-, hticked⟩ := clockTick_ok htick
    have hreturned : (returnDone s.clk (s.ctrls i)).2.Run := returnFrom_run _ _ ih
    refine .next .tick hreturned trivial ?_
    unfold Steps Controller.step
    dsimp only
    rw [hticked i]
    rfl

/-- **Without self refresh the memory system does not end the program**: in every run every cycle
returns. -/
theorem memory_never_exits (hself : c.enableSelfRefresh = false)
    (h : History s accepted reported) : ∃ s', s.clockTick = .ok s' := by
  refine clockTick_returns fun i => ?_
  exact controller_never_exits hself (returnFrom_run _ _ (h.run i))

theorem memory_never_exits_read_write : ∃ (s : JedecDRAMSystem .hbm2)
    (accepted : List (Nat × Completion)) (reported : List (Nat × Transaction)),
    History s accepted reported ∧ accepted.length = 2 ∧ ∃ s', s.clockTick = .ok s' := by
  obtain ⟨s, accepted, reported, h, haccepted, -⟩ := history_read_write
  exact ⟨s, accepted, reported, h, haccepted, memory_never_exits rfl h⟩

end JedecDRAMSystem

/-! ## The memory model of the simulation -/

/-- What a memory model has not reported. -/
def unreported : Except Exit (JedecDRAMSystem c) → Multiset Completion
  | .ok s => s.inFlight.map Prod.snd
  | .error _ => 0

/-- The memory model reports a transaction at most once for each time that it was added. -/
theorem jedec_atMostOnce (getChannel : Addr → Arbiter.Bank) :
    AtMostOnce (jedec c getChannel) unreported where
  ask addr isWrite m := by
    cases m with
    | error e => exact le_refl _
    | ok s => exact le_refl _
  add addr isWrite m := by
    cases m with
    | error e => exact Multiset.zero_le _
    | ok s =>
      show unreported (s.addTransaction addr isWrite) ≤ _
      cases hadd : s.addTransaction addr isWrite with
      | error e => exact Multiset.zero_le _
      | ok s' =>
        show s'.inFlight.map Prod.snd ≤ _
        rw [JedecDRAMSystem.addTransaction_inFlight hadd, Multiset.map_cons]
        exact le_refl _
  clock m := by
    cases m with
    | error e => exact le_refl _
    | ok s =>
      have hreported : (s.reported.map Transaction.completion : Multiset Completion) =
          Multiset.map Prod.snd (s.reported.map Transaction.arrival :
            Multiset (Nat × Completion)) := by
        rw [Multiset.map_coe, List.map_map]
        rfl
      show (s.reported.map Transaction.completion : Multiset Completion) +
        unreported s.clockTick ≤ s.inFlight.map Prod.snd
      cases htick : s.clockTick with
      | error e =>
        rw [hreported, ← JedecDRAMSystem.reported_inFlight s, Multiset.map_add]
        exact add_le_add_right (Multiset.zero_le _) _
      | ok s' =>
        rw [hreported, ← JedecDRAMSystem.clockTick_inFlight htick, Multiset.map_add]
        exact le_refl _

end NetSim.Memory
