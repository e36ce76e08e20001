import NetSim.Memory.Carriers
import NetSim.Memory.Cycle

/-!
# Reads and writes that are never served

`ScheduleTransaction` starts to drain the write buffer when it is full, or when it holds more than
eight writes and the command queues are empty. It stops when a write has to wait for a read of its
address, so that this read can be scheduled first. But the next cycle starts to drain again before
it looks at the read queue. When the read is still there, the write is the first of the buffer and
its command queue is not full (a write whose queue is full is passed over), this goes on in every
cycle: whatever is added later, no transaction is scheduled any more (`starved_forever`).
-/

namespace NetSim.Memory

open Common Library

namespace Controller

variable {c : Config} {s s' t u : Controller c} {a : Addr}

/-- The queues are separate, the write buffer is to be drained, and its first write, for which a
command queue has room, waits for a read of the address `a` that has not been scheduled. -/
structure Starved (s : Controller c) (a : Addr) : Prop where
  split : c.unifiedQueue = false
  draining : s.writeDraining = 0
  starts : c.transQueueSize ≤ s.writeBuffer.length ∨
    8 < s.writeBuffer.length ∧ s.cmdQueue.queueEmpty = true
  write : ∃ x ∈ s.writeBuffer.head?, x.addr = a ∧ x.isWrite = true
  room : s.cmdQueue.willAcceptCommand (c.addressMapping a).bank = true
  read : ∃ x ∈ s.readQueue, x.addr = a ∧ x.isWrite = false

/-- The read of a starved controller is a carrier, so it is pending. -/
theorem Starved.pending (h : Starved s a) (hs : Carried s) : countAddr a s.pendingRdQ ≠ 0 := by
  obtain ⟨x, hx, haddr, hread⟩ := h.read
  have hcarries : carries a false x = true := by simp [carries, haddr, hread]
  have hpos : 0 < s.readQueue.countP (carries a false) :=
    List.countP_pos_iff.mpr ⟨x, hx, hcarries⟩
  have hcarriers : 0 < s.carriers a false := by
    unfold carriers waitingCount
    omega
  have hle : s.carriers a false ≤ countAddr a s.pendingRdQ := hs.pending a false
  omega

/-- The queues that are empty, and those that have room, are so when commands have left. -/
theorem Drains.queueEmpty (h : Drains s t) (hempty : s.cmdQueue.queueEmpty = true) :
    t.cmdQueue.queueEmpty = true := by
  unfold CommandQueue.queueEmpty at hempty ⊢
  rw [List.all_eq_true] at hempty ⊢
  intro i hi
  have hnil : s.cmdQueue.queues i = [] := by simpa using hempty i hi
  have hsub := h.queues i
  rw [hnil] at hsub
  simp [List.sublist_nil.mp hsub]

theorem Drains.room (h : Drains s t) {b : BankId c}
    (hroom : s.cmdQueue.willAcceptCommand b = true) : t.cmdQueue.willAcceptCommand b = true := by
  unfold CommandQueue.willAcceptCommand at hroom ⊢
  rw [decide_eq_true_eq] at hroom ⊢
  exact (h.queues _).length_le.trans_lt hroom

/-- `ScheduleTransaction` starts to drain, and stops at the first write. -/
theorem Starved.schedule (h : Starved s a) (hs : countAddr a s.pendingRdQ ≠ 0) :
    s.scheduleTransaction = s := by
  obtain ⟨x, hx, haddr, hwrite⟩ := h.write
  obtain ⟨rest, hbuffer⟩ : ∃ rest, s.writeBuffer = x :: rest := by
    cases hbuffer : s.writeBuffer with
    | nil => simp [hbuffer] at hx
    | cons y rest =>
      rw [hbuffer] at hx
      exact ⟨rest, by rw [Option.mem_some_iff.mp hx]⟩
  have hpos : (0 : Int) < s.writeBuffer.length := by
    rw [hbuffer]
    simp only [List.length_cons]
    omega
  have hstart : s.startDraining = { s with writeDraining := s.writeBuffer.length } :=
    if_pos ⟨h.draining, h.split, h.starts⟩
  have hsource : source { s with writeDraining := s.writeBuffer.length } = .write := by
    unfold source
    rw [if_neg (by simp [h.split]), if_pos hpos]
  unfold scheduleTransaction
  rw [hstart]
  dsimp only
  rw [hsource]
  show scheduleFrom { s with writeDraining := s.writeBuffer.length } .write [] s.writeBuffer = s
  rw [hbuffer]
  unfold scheduleFrom
  dsimp only
  rw [transToCommand_bank, haddr, if_pos h.room, transToCommand_isWrite, hwrite,
    if_pos ⟨h.split, rfl⟩, if_pos (Nat.pos_of_ne_zero hs), ← h.draining, ← hbuffer]

/-- What stays in a starved controller. -/
structure Stays (a : Addr) (s t : Controller c) : Prop where
  starved : Starved t a
  read : s.readQueue <+: t.readQueue
  write : s.writeBuffer <+: t.writeBuffer
  pending : s.pendingRdQ.filter (·.addr = a) <+: t.pendingRdQ.filter (·.addr = a)

/-- The reads of an address stay pending, or none of them does. -/
theorem Moves.pendingRdQ (h : Moves s t) :
    t.pendingRdQ.filter (·.addr = a) = s.pendingRdQ.filter (·.addr = a) ∨
      countAddr a t.pendingRdQ = 0 := by
  induction h with
  | refl => exact Or.inl rfl
  | @tail u v _ hmove ih =>
    have hsame (hv : v.pendingRdQ = u.pendingRdQ) :
        v.pendingRdQ.filter (·.addr = a) = s.pendingRdQ.filter (·.addr = a) ∨
          countAddr a v.pendingRdQ = 0 := by
      rw [hv]
      exact ih
    cases hmove with
    | due | turn | idle | drain | tick => exact hsame rfl
    | @schedule src before x after => exact hsame (congrFun (scheduled_pending ..) false)
    | @drop r =>
      obtain ⟨q, hq⟩ := u.leaves_eq r
      rw [hq]
      exact ih
    | @issue r =>
      obtain ⟨q, hq⟩ := u.leaves_eq r
      by_cases hread : r.cmdType.isRead = true
      · have hpending : ((u.leaves r).issued r).pendingRdQ =
            u.pendingRdQ.filter fun x => !decide (x.addr = r.hexAddr) := by
          unfold issued
          dsimp only
          rw [if_pos hread, hq]
        rw [hpending]
        by_cases ha : a = r.hexAddr
        · right
          rw [countAddr_filter_ne, if_pos ha]
        · rw [countAddr_filter_ne, if_neg ha, List.filter_filter]
          have hfilter : (fun x : Transaction => decide (x.addr = a) &&
              !decide (x.addr = r.hexAddr)) = fun x => decide (x.addr = a) := by
            funext x
            by_cases hx : x.addr = a
            · simp [hx, ha]
            · simp [hx]
          rw [hfilter]
          exact ih
      · refine hsame ?_
        unfold issued
        dsimp only
        rw [if_neg hread, hq]

namespace Starved

/-- New transactions go behind the others. -/
theorem extend (h : Starved s a) (reads writes pending : List Transaction)
    (hqueue : t.cmdQueue = s.cmdQueue) (hdraining : t.writeDraining = s.writeDraining)
    (hread : t.readQueue = s.readQueue ++ reads) (hwrite : t.writeBuffer = s.writeBuffer ++ writes)
    (hpending : t.pendingRdQ = s.pendingRdQ ++ pending) : Stays a s t where
  starved := by
    refine ⟨h.split, hdraining.trans h.draining, ?_, ?_, hqueue ▸ h.room, ?_⟩
    · rw [hwrite, hqueue, List.length_append]
      exact h.starts.imp (fun hfull => by omega) fun hidle => ⟨by omega, hidle.2⟩
    · obtain ⟨x, hx, hkind⟩ := h.write
      refine ⟨x, ?_, hkind⟩
      rw [hwrite, List.head?_append, Option.mem_def.mp hx]
      rfl
    · obtain ⟨x, hx, hkind⟩ := h.read
      exact ⟨x, hread ▸ List.mem_append_left _ hx, hkind⟩
  read := hread ▸ List.prefix_append _ _
  write := hwrite ▸ List.prefix_append _ _
  pending := by
    rw [hpending, List.filter_append]
    exact List.prefix_append _ _

theorem added {addr : Addr} {isWrite : Bool} (h : Starved s a) (hadd : Added s addr isWrite t) :
    Stays a s t := by
  have hdest (w : Bool) : destination c w = if w then .write else .read := by
    simp [destination, h.split]
  cases hadd with
  | write =>
    rw [hdest]
    exact h.extend [] [_] [] rfl rfl (by simp [setQueue]) rfl (by simp [setQueue])
  | merge | forward =>
    exact h.extend [] [] [] rfl rfl (by simp) (by simp) (by simp)
  | read =>
    rw [hdest]
    exact h.extend [_] [] [_] rfl rfl rfl (by simp [setQueue]) rfl
  | join =>
    exact h.extend [] [] [_] rfl rfl (by simp) (by simp) rfl

/-- A cycle of a starved controller. -/
theorem tick (h : Starved s a) (hs : Carried s) (hstep : InStep s) (htick : s.clockTick = .ok t) :
    Stays a s t := by
  obtain ⟨u, hphase, rfl⟩ := clockTick_ok htick
  have hmoves := issuePhase_moves hstep hphase
  have hcarried : Carried u :=
    hmoves.keeps Carried (fun _ _ hstep hs hmove => hs.move hstep hmove) hstep hs
  have hdrains := drains_issueClosed.issuePhase hphase
  have hread : u.readQueue = s.readQueue := hdrains.read
  have hwrite : u.writeBuffer = s.writeBuffer := hdrains.write
  have hu : Starved u a := by
    refine ⟨h.split, hdrains.draining.trans h.draining, ?_, ?_, hdrains.room h.room, ?_⟩
    · rw [hwrite]
      exact h.starts.imp id fun hidle => ⟨hidle.1, hdrains.queueEmpty hidle.2⟩
    · rw [hwrite]
      exact h.write
    · rw [hread]
      exact h.read
  have hpending := hu.pending hcarried
  rw [hu.schedule hpending]
  refine ⟨⟨hu.split, hu.draining, hu.starts, hu.write, hu.room, hu.read⟩, ?_, ?_, ?_⟩
  · exact hread ▸ List.prefix_refl _
  · exact hwrite ▸ List.prefix_refl _
  · rcases hmoves.pendingRdQ (a := a) with hsame | hnone
    · exact hsame ▸ List.prefix_refl _
    · exact absurd hnone hpending

end Starved

/-- **A starved controller stays so.** With separate queues, no write being drained and room in the
command queue of the first write, whatever happens after a write buffer that is to be drained has
come to a write whose read has not been scheduled: the read stays in the read queue and stays
pending, and no transaction leaves the read queue or the write buffer any more. -/
theorem starved_forever (h : Run s) (hs : Starved s a)
    (hrun : Reach (Steps step) Free s s') :
    Starved s' a ∧ s.readQueue <+: s'.readQueue ∧ s.writeBuffer <+: s'.writeBuffer ∧
      s.pendingRdQ.filter (·.addr = a) <+: s'.pendingRdQ.filter (·.addr = a) := by
  suffices hstays : Stays a s s' ∧ Run s' by
    exact ⟨hstays.1.starved, hstays.1.read, hstays.1.write, hstays.1.pending⟩
  induction hrun with
  | start => exact ⟨⟨hs, List.prefix_refl _, List.prefix_refl _, List.prefix_refl _⟩, h⟩
  | @next t t' action prior hfree hstep ih =>
    obtain ⟨hstays, ht⟩ := ih
    have hnext : Stays a t t' := by
      obtain ⟨hcarried, hinStep⟩ := ht.carried
      cases action with
      | add addr isWrite =>
        unfold Steps step at hstep
        dsimp only at hstep
        split at hstep
        · cases hstep
          exact hstays.starved.added (addTransaction_added t addr isWrite)
        · cases hstep
      | returnDone clk =>
        unfold Steps step at hstep
        obtain ⟨⟨x, v⟩, hreturned, rfl⟩ := Option.map_eq_some_iff.mp hstep
        obtain ⟨before, after, -, -, rfl⟩ := returnDoneTrans_eq hreturned
        exact hstays.starved.extend [] [] [] rfl rfl (by simp) (by simp) (by simp)
      | tick => exact hstays.starved.tick hcarried hinStep (ok_of_toOption hstep)
    exact ⟨⟨hnext.starved, hstays.read.trans hnext.read, hstays.write.trans hnext.write,
      hstays.pending.trans hnext.pending⟩, .next action ht hfree hstep⟩

/-- With the configuration of `main`, a read, a write of the same address and eight other writes
that come in one cycle are enough. -/
theorem starved_forever_ten : ∃ s : Controller .hbm2, Run s ∧ Starved s 64 ∧
    ∀ s', Reach (Steps step) Free s s' → ∃ x ∈ s'.pendingRdQ, x = ⟨64, 0, 0, false⟩ := by
  obtain ⟨s, hs, hp⟩ := Reach.of_run step Free (init : Controller .hbm2)
    ([.add 64 false, .add 64 true, .add 0x4000 true, .add 0x8000 true, .add 0xc000 true,
      .add 0x10000 true, .add 0x14000 true, .add 0x18000 true, .add 0x1c000 true,
      .add 0x20000 true, .tick])
    (fun s => s.writeDraining = 0 ∧ s.writeBuffer.length = 9 ∧ s.cmdQueue.queueEmpty = true ∧
      s.writeBuffer.head? = some ⟨64, 0, 0, true⟩ ∧
      s.cmdQueue.willAcceptCommand (Config.hbm2.addressMapping 64).bank = true ∧
      s.readQueue = [⟨64, 0, 0, false⟩] ∧ s.pendingRdQ = [⟨64, 0, 0, false⟩]) (by decide +kernel)
  obtain ⟨hdraining, hlength, hempty, hwrite, hroom, hread, hpending⟩ := of_decide_eq_true hp
  have hstarved : Starved s 64 :=
    ⟨rfl, hdraining, Or.inr ⟨by omega, hempty⟩, ⟨_, hwrite, rfl, rfl⟩, hroom,
      ⟨⟨64, 0, 0, false⟩, by simp [hread], rfl, rfl⟩⟩
  refine ⟨s, hs, hstarved, fun s' hrun => ⟨_, ?_, rfl⟩⟩
  obtain ⟨-, -, -, hstays⟩ := starved_forever hs hstarved hrun
  rw [hpending] at hstays
  exact List.mem_of_mem_filter (hstays.subset (by decide))

end Controller

end NetSim.Memory
