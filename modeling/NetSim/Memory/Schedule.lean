import NetSim.Memory.Carriers
import NetSim.Memory.Cycle

/-!
# The transactions that wait

`ScheduleTransaction` takes at most one transaction in a cycle from the queue that has its turn
(`Controller.scheduleTransaction_cases`). The transactions wait in the queues for them, and no more
writes are to be drained than there are (`Controller.Filed`).
-/

namespace NetSim.Memory

open Common Library

namespace Controller

variable {c : Config} {s t u : Controller c}

/-! ## `ScheduleTransaction` -/

/-- The queue does not take the transaction. -/
def Refused (s : Controller c) (x : Transaction) : Prop :=
  s.cmdQueue.willAcceptCommand (c.addressMapping x.addr).bank = false

/-- What `ScheduleTransaction` counts down when it takes a transaction. -/
def drainingAfter (s : Controller c) (x : Transaction) : Int :=
  if c.unifiedQueue = false ∧ x.isWrite = true then s.writeDraining - 1 else s.writeDraining

/-- The loop of `ScheduleTransaction` finds no room, stops at a write with a pending read, or takes
a transaction. -/
theorem scheduleFrom_cases {src : Source} {before queue : List Transaction}
    (hqueue : s.queue src = before ++ queue) :
    (s.scheduleFrom src before queue = s ∧ ∀ x ∈ queue, s.Refused x) ∨
    (s.scheduleFrom src before queue = { s with writeDraining := 0 } ∧ c.unifiedQueue = false ∧
      ∃ x ∈ s.queue src, x.isWrite = true ∧ countAddr x.addr s.pendingRdQ ≠ 0) ∨
    ∃ before' x after, s.queue src = before' ++ x :: after ∧
      s.cmdQueue.willAcceptCommand (c.addressMapping x.addr).bank = true ∧
      s.scheduleFrom src before queue =
        scheduled { s with writeDraining := s.drainingAfter x } src before' x after := by
  induction queue generalizing before with
  | nil => exact Or.inl ⟨rfl, by simp⟩
  | cons x after ih =>
    unfold scheduleFrom
    dsimp only
    rw [transToCommand_bank, transToCommand_isWrite]
    split
    · rename_i haccept
      split
      · rename_i hwrite
        split
        · rename_i hcount
          exact Or.inr (Or.inl ⟨rfl, hwrite.1, x, by simp [hqueue], hwrite.2, by omega⟩)
        · refine Or.inr (Or.inr ⟨before, x, after, hqueue, haccept, ?_⟩)
          unfold drainingAfter
          rw [if_pos hwrite]
          rfl
      · rename_i hwrite
        refine Or.inr (Or.inr ⟨before, x, after, hqueue, haccept, ?_⟩)
        unfold drainingAfter
        rw [if_neg hwrite]
        rfl
    · rename_i hrefuse
      have hnext : s.queue src = (before ++ [x]) ++ after := by simpa using hqueue
      rcases ih hnext with ⟨hsame, hall⟩ | hrest
      · refine Or.inl ⟨hsame, fun y hy => ?_⟩
        rcases List.mem_cons.mp hy with rfl | hy
        · simpa [Refused] using hrefuse
        · exact hall y hy
      · exact Or.inr hrest

/-- What `ScheduleTransaction` does. -/
theorem scheduleTransaction_cases (s : Controller c) :
    ∃ u, u = s.startDraining ∧
      ((s.scheduleTransaction = u ∧ ∀ x ∈ u.queue u.source, u.Refused x) ∨
      (s.scheduleTransaction = { u with writeDraining := 0 } ∧ c.unifiedQueue = false ∧
        ∃ x ∈ u.queue u.source, x.isWrite = true ∧ countAddr x.addr u.pendingRdQ ≠ 0) ∨
      ∃ before x after, u.queue u.source = before ++ x :: after ∧
        u.cmdQueue.willAcceptCommand (c.addressMapping x.addr).bank = true ∧
        s.scheduleTransaction =
          scheduled { u with writeDraining := u.drainingAfter x } u.source before x after) :=
  ⟨_, rfl, scheduleFrom_cases (List.nil_append _).symm⟩

/-- The transactions wait in the queues for them, and no more writes are to be drained than there
are. -/
structure Filed (s : Controller c) : Prop where
  unified : c.unifiedQueue = false → s.unifiedQueue = []
  read : c.unifiedQueue = true → s.readQueue = []
  write : c.unifiedQueue = true → s.writeBuffer = []
  reads : ∀ x ∈ s.readQueue, x.isWrite = false
  writes : ∀ x ∈ s.writeBuffer, x.isWrite = true
  draining : s.writeDraining ≤ s.writeBuffer.length

/-- What is left of a queue. -/
theorem mem_of_mem_rest {before after : List Transaction} {x y : Transaction}
    (h : y ∈ before ++ after) : y ∈ before ++ x :: after :=
  ((List.sublist_cons_self x after).append_left before).subset h

theorem Filed.drained (h : Filed s) (hd : Drains s t) : Filed t where
  unified := hd.unified ▸ h.unified
  read := hd.read ▸ h.read
  write := hd.write ▸ h.write
  reads := hd.read ▸ h.reads
  writes := hd.write ▸ h.writes
  draining := hd.draining ▸ hd.write ▸ h.draining

theorem Filed.startDraining (h : Filed s) : Filed s.startDraining := by
  unfold Controller.startDraining
  split
  · exact ⟨h.unified, h.read, h.write, h.reads, h.writes, le_rfl⟩
  · exact h

/-- A transaction has gone to its command queue. -/
theorem Filed.scheduled {src : Source} {before after : List Transaction} {x : Transaction}
    (h : Filed s) (hsrc : src = .unified ↔ c.unifiedQueue = true)
    (hqueue : s.queue src = before ++ x :: after) :
    Filed
      (Controller.scheduled { s with writeDraining := s.drainingAfter x } src before x after) := by
  have hmem {y : Transaction} (hy : y ∈ before ++ after) : y ∈ s.queue src := by
    rw [hqueue]
    exact mem_of_mem_rest hy
  cases src with
  | unified =>
    have hunified := hsrc.mp rfl
    refine ⟨by simp [hunified], h.read, h.write, h.reads, h.writes, ?_⟩
    show s.drainingAfter x ≤ s.writeBuffer.length
    unfold drainingAfter
    rw [if_neg (by simp [hunified])]
    exact h.draining
  | read =>
    have hread : x.isWrite = false := h.reads x (by
      show x ∈ s.queue .read
      rw [hqueue]
      simp)
    have hunified : c.unifiedQueue = false := by simpa using hsrc
    refine ⟨h.unified, by simp [hunified], h.write, fun y hy => h.reads y (hmem hy), h.writes, ?_⟩
    show s.drainingAfter x ≤ s.writeBuffer.length
    unfold drainingAfter
    rw [if_neg (by simp [hread])]
    exact h.draining
  | write =>
    have hwrite : x.isWrite = true := h.writes x (by
      show x ∈ s.queue .write
      rw [hqueue]
      simp)
    have hunified : c.unifiedQueue = false := by simpa using hsrc
    refine ⟨h.unified, h.read, by simp [hunified], h.reads, fun y hy => h.writes y (hmem hy), ?_⟩
    show s.drainingAfter x ≤ (before ++ after).length
    have hlength : s.writeBuffer.length = (before ++ after).length + 1 := by
      have hlength := congrArg List.length hqueue
      simpa [queue, Nat.add_assoc] using hlength
    have hdraining := h.draining
    unfold drainingAfter
    rw [if_pos ⟨hunified, hwrite⟩]
    omega

theorem source_unified (s : Controller c) : s.source = .unified ↔ c.unifiedQueue = true := by
  unfold source
  split
  · simp_all
  · split <;> simp_all

theorem Filed.scheduleTransaction (h : Filed s) : Filed s.scheduleTransaction := by
  obtain ⟨u, rfl, hcases⟩ := s.scheduleTransaction_cases
  have hu := h.startDraining
  rcases hcases with ⟨hsame, -⟩ | ⟨hstop, -⟩ | ⟨before, x, after, hqueue, -, htaken⟩
  · rwa [hsame]
  · rw [hstop]
    exact ⟨hu.unified, hu.read, hu.write, hu.reads, hu.writes, by simp⟩
  · rw [htaken]
    exact hu.scheduled (source_unified _) hqueue

/-- A new transaction is filed. -/
theorem Filed.append {x : Transaction} (h : Filed s) :
    Filed (s.setQueue (s.queue (destination c x.isWrite) ++ [x]) (destination c x.isWrite)) := by
  unfold destination
  split
  · rename_i hunified
    exact ⟨by simp [hunified], h.read, h.write, h.reads, h.writes, h.draining⟩
  · rename_i hunified
    split
    · rename_i hwrite
      refine ⟨h.unified, h.read, by simp [hunified], h.reads, fun y hy => ?_, ?_⟩
      · rcases List.mem_append.mp hy with hy | hy
        · exact h.writes y hy
        · rwa [List.mem_singleton.mp hy]
      · have hdraining := h.draining
        show s.writeDraining ≤ (s.writeBuffer ++ [x]).length
        rw [List.length_append]
        omega
    · rename_i hread
      refine ⟨h.unified, by simp [hunified], h.write, fun y hy => ?_, h.writes, h.draining⟩
      rcases List.mem_append.mp hy with hy | hy
      · exact h.reads y hy
      · rw [List.mem_singleton.mp hy]
        simpa using hread

theorem Filed.added {a : Addr} {w : Bool} (h : Filed s) (hadd : Added s a w t) : Filed t := by
  cases hadd with
  | merge | forward | join => exact ⟨h.unified, h.read, h.write, h.reads, h.writes, h.draining⟩
  | write =>
    have hpending : Filed { s with
        pendingWrQ := s.pendingWrQ ++ [s.fresh a true]
        returnQueue := s.returnQueue ++ [s.prompt a true] } :=
      ⟨h.unified, h.read, h.write, h.reads, h.writes, h.draining⟩
    have happend := hpending.append (x := s.fresh a true)
    cases hdest : destination c true <;> rw [show (s.fresh a true).isWrite = true from rfl, hdest]
      at happend <;> exact happend
  | read =>
    have hpending : Filed { s with pendingRdQ := s.pendingRdQ ++ [s.fresh a false] } :=
      ⟨h.unified, h.read, h.write, h.reads, h.writes, h.draining⟩
    have happend := hpending.append (x := s.fresh a false)
    cases hdest : destination c false <;>
      rw [show (s.fresh a false).isWrite = false from rfl, hdest]
      at happend <;> exact happend

theorem Run.filed (h : Run s) : Filed s := by
  refine Reach.invariant Filed ?_ ?_ h
  · exact ⟨fun _ => rfl, fun _ => rfl, fun _ => rfl, by simp [init], by simp [init], le_rfl⟩
  · intro s action t _ hs _ hstep
    cases action with
    | add addr isWrite =>
      unfold Steps step at hstep
      dsimp only at hstep
      split at hstep
      · cases hstep
        exact hs.added (addTransaction_added s addr isWrite)
      · cases hstep
    | returnDone clk =>
      unfold Steps step at hstep
      obtain ⟨⟨x, v⟩, hreturned, rfl⟩ := Option.map_eq_some_iff.mp hstep
      obtain ⟨before, after, -, -, rfl⟩ := returnDoneTrans_eq hreturned
      exact ⟨hs.unified, hs.read, hs.write, hs.reads, hs.writes, hs.draining⟩
    | tick =>
      obtain ⟨u, hphase, rfl⟩ := clockTick_ok (ok_of_toOption hstep)
      have hrefreshed : Filed s.refreshed :=
        ⟨hs.unified, hs.read, hs.write, hs.reads, hs.writes, hs.draining⟩
      have hnext := (hrefreshed.drained (drains_issueClosed.issuePhase hphase)).scheduleTransaction
      exact ⟨hnext.unified, hnext.read, hnext.write, hnext.reads, hnext.writes, hnext.draining⟩

/-! ## Where no write stops the others -/

/-- `ScheduleTransaction` is not stopped by a write that waits for a read: no read that has not been
scheduled has the address of a write of the buffer, or there are too few writes to drain them. -/
def Fluent (s : Controller c) : Prop :=
  c.unifiedQueue = false →
    (∀ x ∈ s.readQueue, ∀ y ∈ s.writeBuffer, y.addr ≠ x.addr) ∨
      s.writeDraining = 0 ∧ s.writeBuffer.length ≤ 8 ∧ s.writeBuffer.length < c.transQueueSize

theorem Fluent.drained (h : Fluent s) (hd : Drains s t) : Fluent t := by
  unfold Fluent
  rw [hd.read, hd.write, hd.draining]
  exact h

theorem startDraining_eq (s : Controller c) :
    ∃ n, s.startDraining = { s with writeDraining := n } := by
  unfold startDraining
  split
  · exact ⟨_, rfl⟩
  · exact ⟨_, rfl⟩

/-- Where there are too few writes, the reads have their turn. -/
theorem startDraining_few (hunified : c.unifiedQueue = false) (hdraining : s.writeDraining = 0)
    (height : s.writeBuffer.length ≤ 8) (hroom : s.writeBuffer.length < c.transQueueSize) :
    s.startDraining = s ∧ s.source = .read := by
  constructor
  · unfold startDraining
    rw [if_neg]
    rintro ⟨-, -, hfull | hmany⟩
    · omega
    · omega
  · unfold source
    rw [if_neg (by simp [hunified]), if_neg (by omega)]

theorem Fluent.scheduleTransaction (h : Fluent s) (hs : Filed s) :
    Fluent s.scheduleTransaction := by
  intro hunified
  obtain ⟨u, hu, hcases⟩ := s.scheduleTransaction_cases
  obtain ⟨n, hn⟩ := s.startDraining_eq
  rcases h hunified with hapart | ⟨hdraining, height, hroom⟩
  · left
    rw [hn] at hu
    subst hu
    rcases hcases with ⟨hsame, -⟩ | ⟨hstop, -⟩ | ⟨before, x, after, hqueue, -, htaken⟩
    · rw [hsame]
      exact hapart
    · rw [hstop]
      exact hapart
    · rw [htaken]
      cases hsource : source { s with writeDraining := n } with
      | unified =>
        rw [source_unified, hunified] at hsource
        cases hsource
      | write =>
        rw [hsource] at hqueue
        have hqueue : s.writeBuffer = before ++ x :: after := hqueue
        intro y hy z hz
        exact hapart y hy z (by rw [hqueue]; exact mem_of_mem_rest hz)
      | read =>
        rw [hsource] at hqueue
        have hqueue : s.readQueue = before ++ x :: after := hqueue
        intro y hy z hz
        exact hapart y (by rw [hqueue]; exact mem_of_mem_rest hy) z hz
  · right
    obtain ⟨hstart, hsource⟩ := startDraining_few hunified hdraining height hroom
    rw [hstart] at hu
    subst hu
    rcases hcases with ⟨hsame, -⟩ | ⟨hstop, -⟩ | ⟨before, x, after, hqueue, -, htaken⟩
    · rw [hsame]
      exact ⟨hdraining, height, hroom⟩
    · rw [hstop]
      exact ⟨rfl, height, hroom⟩
    · rw [htaken, hsource]
      rw [hsource] at hqueue
      have hread : x.isWrite = false := hs.reads x (by
        show x ∈ u.queue .read
        rw [hqueue]
        simp)
      have hafter : u.drainingAfter x = 0 := by
        unfold drainingAfter
        rw [if_neg (by simp [hread])]
        exact hdraining
      exact ⟨hafter, height, hroom⟩

end Controller

end NetSim.Memory
